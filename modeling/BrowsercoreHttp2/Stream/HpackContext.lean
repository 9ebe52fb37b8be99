import BrowsercoreHttp2.Hpack.Representation
import BrowsercoreHttp2.Stream.Response

/-!
# Header blocks and the dynamic table

HPACK has one dynamic table a connection, which every header block reads and extends. The manager decodes
each block by `decodeHeaders`, whose decoder is made for the call, so a block is decoded as if it were the
first of its connection. The two agree on a block as long as its indices resolve in a new table exactly
when they resolve in the table the earlier blocks left.
-/

namespace BrowsercoreHttp2

/-! ### Blocks and histories -/

def pushPromiseFrame (streamId promisedStreamId : StreamId) (endHeaders : Bool) (payload : Bytes) : Frame :=
  .pushPromise
    { flags := if endHeaders then 0x4 else 0
      streamId, endHeaders
      padded := false
      promisedStreamId, payload }

inductive BlockKind where
  | headers (streamId : StreamId) (endStream : Bool)
  | pushPromise (streamId promisedStreamId : StreamId)

structure IncomingBlock where
  kind : BlockKind
  fragments : BlockFragments

namespace IncomingBlock

def bytes (b : IncomingBlock) : Bytes := b.fragments.block

/-- The stream whose headers the block carries. -/
def target (b : IncomingBlock) : StreamId :=
  match b.kind with
  | .headers streamId _ => streamId
  | .pushPromise _ promisedStreamId => promisedStreamId

def frames (b : IncomingBlock) : List Frame :=
  match b.kind with
  | .headers streamId endStream => b.fragments.frames streamId endStream
  | .pushPromise streamId promisedStreamId =>
      match b.fragments.continuations with
      | none => [pushPromiseFrame streamId promisedStreamId true b.fragments.first]
      | some (middle, last) =>
          pushPromiseFrame streamId promisedStreamId false b.fragments.first ::
            (middle.map (continuationFrame streamId false) ++ [continuationFrame streamId true last])

/-- The manager takes the block: HEADERS for a stream that is not in the table are ignored. -/
def Delivered (b : IncomingBlock) (m : Manager) : Prop :=
  match b.kind with
  | .headers streamId _ => (m.streams.get streamId).isSome
  | .pushPromise _ _ => True

end IncomingBlock

/-- What happens on a connection: whole header blocks, and operations that carry no header octets. -/
inductive ConnectionEvent where
  | block (b : IncomingBlock)
  | other (op : ManagerOp) (h : op.scope ≠ .collects)

namespace Manager

/-- Dispatch frames until one throws, as the read loop does. -/
def receive (m : Manager) : List Frame → Outcome
  | [] => (m, none)
  | frame :: frames =>
      match m.dispatch frame with
      | (m, none) => m.receive frames
      | (m, some e) => (m, some e)

/-- The headers of a stream as whoever holds it sees them, also once it has left the table. -/
def headersOf (m : Manager) (streamId : StreamId) : Option HeaderMap :=
  match m.streams.get streamId with
  | some stream => some stream.responseHeaders
  | none => (m.retired.reverse.find? fun stream => stream.id = streamId).map ManagedStream.responseHeaders

/-- The map the manager makes of a block, if it does not throw. -/
def produces (m : Manager) (b : IncomingBlock) : Option HeaderMap :=
  match m.receive b.frames with
  | (m, none) => m.headersOf b.target
  | (_, some _) => none

def event (m : Manager) : ConnectionEvent → Manager
  | .block b => (m.receive b.frames).1
  | .other op _ => m.step op

def after (history : List ConnectionEvent) : Manager := history.foldl event create

end Manager

/-- The header blocks of a history, those for streams that have left the table among them. -/
def headerBlocks (history : List ConnectionEvent) : List Bytes :=
  history.filterMap fun
    | .block b => some b.bytes
    | .other _ _ => none

/-- One decoder that decodes every block of a history in turn. -/
def sharedDecoder (history : List ConnectionEvent) : HpackDecoder :=
  (headerBlocks history).foldl (fun d bytes => (d.decode bytes).1) .initial

/-! ### Between two blocks -/

open ManagedStream

namespace Manager

/-- No block is under way. -/
structure Settled (m : Manager) : Prop where
  collected : ∀ st ∈ m.streams.entries, st.pendingHeaderBytes = []
  pushes : m.pendingPushContinuation = .empty

variable {m : Manager} {st : ManagedStream}

theorem create_settled : create.Settled := ⟨fun _ hst => absurd hst List.not_mem_nil, rfl⟩

theorem Settled.target (h : m.Settled) (streamId : StreamId) : m.continuationTarget streamId = streamId := by
  rw [continuationTarget, h.pushes]
  rfl

theorem Settled.done (h : m.Settled) (streamId : StreamId) : m.continuationDone streamId = m := by
  rw [continuationDone, h.pushes]
  rfl

theorem Settled.setStream (h : m.Settled) (hst : st.pendingHeaderBytes = []) : (m.setStream st).Settled where
  collected w hw := by
    rcases Table.mem_set hw with rfl | ⟨hw, -⟩
    · exact hst
    · exact h.collected w hw
  pushes := h.pushes

theorem Settled.evolves {scope : Scope} {m' : Manager} (h : m.Settled) (hevolves : Evolves scope m m')
    (hscope : scope ≠ .collects) : m'.Settled where
  collected st' hst' := by
    obtain ⟨st, hst, hchanges⟩ := hevolves.streams st' hst'
    rw [hchanges.pendingHeaderBytes_eq hscope]
    exact h.collected st hst
  pushes := (hevolves.pushes hscope).trans h.pushes

theorem Settled.step (h : m.Settled) {op : ManagerOp} (hscope : op.scope ≠ .collects) : (m.step op).Settled := by
  by_cases hopen : op = .openStream
  · subst hopen
    have hinserted : ∀ m' : Manager, m'.Settled → (m'.setStream m.newClientStream).Settled :=
      fun m' hm' => hm'.setStream rfl
    exact hinserted _ ⟨h.collected, h.pushes⟩
  · refine h.evolves (step_evolves hopen fun frame hpush => ?_) hscope
    subst hpush
    exact hscope rfl

/-! ### One block -/

/-- What a block does to a manager between blocks: it throws, or its stream gets the decoded map. -/
structure TookBlock (streamId : StreamId) (decoded : Except HpackError HeaderMap) (r : Outcome) : Prop where
  settled : r.1.Settled
  error : ∀ e, decoded = .error e → r.2 = some (.hpack e)
  ok : ∀ headers, decoded = .ok headers → r.2 = none ∧ r.1.headersOf streamId = some headers

theorem headersOf_setStream (m : Manager) (st : ManagedStream) : (m.setStream st).headersOf st.id = some st.responseHeaders := by
  simp only [headersOf, setStream_streams, Table.get_set_self]

theorem headersOf_finalizeStream (m : Manager) (st : ManagedStream) :
    (m.finalizeStream st).headersOf st.id = some st.responseHeaders := by
  simp [headersOf, finalizeStream, emitEvent, perform]

theorem headersOf_maybeResolveResponse (h : m.headersOf st.id = some st.responseHeaders) :
    (m.maybeResolveResponse st).headersOf st.id = some st.responseHeaders := by
  rw [Manager.maybeResolveResponse]
  split
  · exact h
  · split
    · exact h
    · dsimp only
      split
      · exact headersOf_finalizeStream (m.emitEvent _) { st with resolve := none, reject := none, pushResponse := _ }
      · exact headersOf_finalizeStream m { st with resolve := none, reject := none }

/-- Throwing on the last frame of a block, or writing the decoded headers and perhaps settling. -/
theorem Settled.tookBlock (h : m.Settled) {decoded : Except HpackError HeaderMap} {r : Outcome}
    (herror : ∀ e, decoded = .error e → r = (m.setStream { st with pendingHeaderBytes := [] }, some (.hpack e)))
    (hok : ∀ headers, decoded = .ok headers → ∃ st' m', r = (m', none) ∧ st'.id = st.id ∧ st'.responseHeaders = headers ∧
      st'.pendingHeaderBytes = [] ∧ Evolves .quiet (m.setStream st') m' ∧ m'.headersOf st'.id = some st'.responseHeaders) :
    TookBlock st.id decoded r where
  settled := by
    cases decoded with
    | error e =>
        rw [herror e rfl]
        exact h.setStream rfl
    | ok headers =>
        obtain ⟨st', m', rfl, -, -, hcollected, hevolves, -⟩ := hok headers rfl
        exact (h.setStream hcollected).evolves hevolves (by decide)
  error e he := by rw [herror e he]
  ok headers hheaders := by
    obtain ⟨st', m', rfl, hid, hsame, -, -, hof⟩ := hok headers hheaders
    rw [hid, hsame] at hof
    exact ⟨rfl, hof⟩

theorem settles_evolves (m : Manager) (st : ManagedStream) : Evolves .quiet (m.setStream st) ((m.setStream st).maybeResolveResponse st) :=
  (Evolves.refl _).maybeResolveResponse st

theorem settles_headersOf (m : Manager) (st : ManagedStream) :
    ((m.setStream st).maybeResolveResponse st).headersOf st.id = some st.responseHeaders :=
  headersOf_maybeResolveResponse (headersOf_setStream m st)

theorem receive_append (m : Manager) (frames frames' : List Frame) :
    m.receive (frames ++ frames') =
      match m.receive frames with
      | (m', none) => m'.receive frames'
      | (m', some e) => (m', some e) := by
  induction frames generalizing m with
  | nil => rfl
  | cons frame frames ih =>
      rw [List.cons_append, receive, receive]
      split
      · exact ih _
      · rfl

theorem receive_of_returns (m : Manager) {frames : List Frame}
    (hreturns : ∀ frame ∈ frames, ∀ m : Manager, (m.dispatch frame).2 = none) : m.receive frames = (m.dispatchAll frames, none) := by
  induction frames generalizing m with
  | nil => rfl
  | cons frame frames ih =>
      have hframe := hreturns frame List.mem_cons_self m
      rw [receive, dispatchAll_cons]
      split
      · rename_i m' hdispatch
        rw [hdispatch]
        exact ih m' fun frame' hmem => hreturns frame' (List.mem_cons_of_mem _ hmem)
      · rename_i m' e hdispatch
        rw [hdispatch] at hframe
        exact absurd hframe (by simp)

/-- Only the last frame of a block can throw. -/
theorem receive_concat (m : Manager) {frames : List Frame} (hreturns : ∀ frame ∈ frames, ∀ m : Manager, (m.dispatch frame).2 = none)
    (last : Frame) : m.receive (frames ++ [last]) = (m.dispatchAll frames).dispatch last := by
  rw [receive_append, receive_of_returns m hreturns]
  simp only [receive]
  split
  · rename_i m' hdispatch
    rw [hdispatch]
  · rename_i m' e hdispatch
    rw [hdispatch]

theorem dispatch_headers_returns (m : Manager) (streamId : StreamId) (endStream : Bool) (payload : Bytes) :
    (m.dispatch (headersFrame streamId false endStream payload)).2 = none := by
  simp only [dispatch, headersFrame, handleHeaders, Bool.not_false, if_true]
  split <;> rfl

theorem dispatch_continuation_returns (m : Manager) (streamId : StreamId) (payload : Bytes) :
    (m.dispatch (continuationFrame streamId false payload)).2 = none := by
  simp only [dispatch, continuationFrame, handleContinuation, Bool.not_false, if_true]
  split <;> rfl

theorem dispatch_pushPromise_returns (m : Manager) (streamId promisedStreamId : StreamId) (payload : Bytes) :
    (m.dispatch (pushPromiseFrame streamId promisedStreamId false payload)).2 = none := rfl

theorem receive_split (m : Manager) {first : Frame} (hfirst : ∀ m : Manager, (m.dispatch first).2 = none) (streamId : StreamId)
    (middle : List Bytes) (last : Bytes) :
    m.receive (first :: (middle.map (continuationFrame streamId false) ++ [continuationFrame streamId true last])) =
      ((m.dispatch first).1.dispatchAll (middle.map (continuationFrame streamId false))).dispatch
        (continuationFrame streamId true last) := by
  rw [← List.cons_append, receive_concat, dispatchAll_cons]
  intro frame hframe m'
  rcases List.mem_cons.mp hframe with rfl | hframe
  · exact hfirst m'
  · obtain ⟨payload, -, rfl⟩ := List.mem_map.mp hframe
    exact dispatch_continuation_returns m' streamId payload

/-- The CONTINUATION frames of a block whose first frame has been collected. -/
theorem Settled.tookContinuations (h : m.Settled) {m' : Manager} {streamId : StreamId} (htarget : m'.continuationTarget streamId = st.id)
    (hdone : m'.continuationDone streamId = m) (hcollected : st.pendingHeaderBytes = []) (first : Bytes) (middle : List Bytes)
    (last : Bytes) :
    TookBlock st.id (decodeHeaders (first ++ (middle.flatten ++ last)))
      (((m'.setStream (st.pushHeaderBytes first)).dispatchAll (middle.map (continuationFrame streamId false))).dispatch
        (continuationFrame streamId true last)) := by
  have hmiddle := @dispatchAll_continuations m' (st.pushHeaderBytes first) streamId htarget.symm middle
  have hget : (m'.setStream ((st.pushHeaderBytes first).pushHeaderBytes middle.flatten)).streams.get
      ((m'.setStream ((st.pushHeaderBytes first).pushHeaderBytes middle.flatten)).continuationTarget streamId) =
      some ((st.pushHeaderBytes first).pushHeaderBytes middle.flatten) := by
    change (m'.streams.set _).get (m'.continuationTarget streamId) = _
    rw [htarget]
    exact Table.get_set_self _ _
  have hblock : ((st.pushHeaderBytes first).pushHeaderBytes middle.flatten).pendingHeaderBytes ++ last =
      first ++ (middle.flatten ++ last) := by
    simp only [pushHeaderBytes, hcollected, List.nil_append, List.append_assoc]
  rw [hmiddle]
  refine h.tookBlock (fun e he => ?_) fun headers hheaders => ?_
  · rw [dispatch_continuation_error hget (by rwa [hblock]), continuationDone_setStream, hdone,
      setStream_setStream _ _ _ (by rfl)]
    rfl
  · refine ⟨st.withHeaders headers, _, dispatch_continuation_ok hget (by rwa [hblock]), rfl, rfl, rfl, ?_⟩
    rw [continuationDone_setStream, hdone, setStream_setStream _ _ _ (by rfl)]
    have hsame : ((st.pushHeaderBytes first).pushHeaderBytes middle.flatten).withHeaders headers = st.withHeaders headers := rfl
    rw [hsame]
    split
    · have hof : ((m.setStream (st.withHeaders headers)).emitEvent (.push st.id headers)).headersOf
          (st.withHeaders headers).id = some headers := headersOf_setStream m (st.withHeaders headers)
      exact ⟨((Evolves.refl _).perform _ rfl).maybeResolveResponse _, headersOf_maybeResolveResponse hof⟩
    · exact ⟨settles_evolves m _, settles_headersOf m _⟩

theorem finished_fields (st : ManagedStream) (endStream : Bool) :
    let st' := if endStream then { st.promoteReserved with endStreamSeen := true }.transitionOnEndStream else st.promoteReserved
    st'.id = st.id ∧ st'.responseHeaders = st.responseHeaders ∧ st'.pendingHeaderBytes = st.pendingHeaderBytes := by
  dsimp only
  split
  · rw [transitionOnEndStream_eq, promoteReserved_eq]
    exact ⟨rfl, rfl, rfl⟩
  · rw [promoteReserved_eq]
    exact ⟨rfl, rfl, rfl⟩

theorem Settled.tookHeaders (h : m.Settled) (hget : m.streams.get st.id = some st) (endStream : Bool) (payload : Bytes) :
    TookBlock st.id (decodeHeaders payload) (m.dispatch (headersFrame st.id true endStream payload)) := by
  have hcollected : st.pendingHeaderBytes ++ payload = payload := by
    rw [h.collected st (Table.mem_of_get hget), List.nil_append]
  refine h.tookBlock (fun e he => dispatch_headers_error hget endStream (by rwa [hcollected])) fun headers hheaders => ?_
  have hdecode : (st.pushHeaderBytes payload).decodePendingHeaders = (st.withHeaders headers, none) :=
    decodePendingHeaders_ok (st.pushHeaderBytes payload) ((congrArg decodeHeaders hcollected).trans hheaders)
  obtain ⟨hid, hheaders', hpending⟩ := finished_fields (st.withHeaders headers) endStream
  simp only [dispatch, headersFrame, handleHeaders, hget, Bool.not_true, Bool.false_eq_true, if_false, hdecode]
  exact ⟨_, _, rfl, hid, hheaders', hpending, settles_evolves m _, settles_headersOf m _⟩

theorem Settled.ignoresHeaders (h : m.Settled) {streamId : StreamId} (hget : m.streams.get streamId = none) (endStream : Bool)
    (fragments : BlockFragments) : m.receive (fragments.frames streamId endStream) = (m, none) := by
  have hheaders : ∀ endHeaders payload, m.dispatch (headersFrame streamId endHeaders endStream payload) = (m, none) := by
    intro endHeaders payload
    simp only [dispatch, headersFrame, handleHeaders, hget]
  have hcontinuation : m.streams.get (m.continuationTarget streamId) = none := by rwa [h.target]
  obtain ⟨first, continuations⟩ := fragments
  cases continuations with
  | none => simp only [BlockFragments.frames, receive, hheaders]
  | some rest =>
      obtain ⟨middle, last⟩ := rest
      simp only [BlockFragments.frames, splitBlock]
      rw [receive_split m fun m' => dispatch_headers_returns m' streamId endStream first, hheaders,
        dispatchAll_continuations_none hcontinuation]
      rw [continuationTarget] at hcontinuation
      simp only [dispatch, continuationFrame, handleContinuation, hcontinuation]

/-- The manager with the promised stream inserted, before any octet of its block is collected. -/
def promising (m : Manager) (promisedStreamId : StreamId) : Manager :=
  { m with retired := m.retired ++ (m.streams.get promisedStreamId).toList }

theorem Settled.promising (h : m.Settled) (promisedStreamId : StreamId) : (m.promising promisedStreamId).Settled :=
  ⟨h.collected, h.pushes⟩

theorem Settled.tookPushPromise (h : m.Settled) (streamId promisedStreamId : StreamId) (payload : Bytes) :
    TookBlock promisedStreamId (decodeHeaders payload)
      (m.dispatch (pushPromiseFrame streamId promisedStreamId true payload)) := by
  refine @Settled.tookBlock _ (newPushStream promisedStreamId) (h.promising promisedStreamId) _ _ (fun e he => ?_)
    fun headers hheaders => ?_
  · have hdecode := decodePendingHeaders_error ((newPushStream promisedStreamId).pushHeaderBytes payload) he
    rw [newPushStream] at hdecode
    simp only [dispatch, pushPromiseFrame, handlePushPromise, if_true, hdecode]
    rfl
  · have hdecode := decodePendingHeaders_ok ((newPushStream promisedStreamId).pushHeaderBytes payload) hheaders
    rw [newPushStream] at hdecode
    simp only [dispatch, pushPromiseFrame, handlePushPromise, if_true, hdecode]
    exact ⟨(newPushStream promisedStreamId).withHeaders headers, _, rfl, rfl, rfl, rfl, (Evolves.refl _).perform _ rfl,
      headersOf_setStream (m.promising promisedStreamId) ((newPushStream promisedStreamId).withHeaders headers)⟩

/-- A PUSH_PROMISE frame that leaves its block open routes the CONTINUATION frames to the promised stream. -/
def awaiting (m : Manager) (streamId promisedStreamId : StreamId) : Manager :=
  { m.promising promisedStreamId with
      pendingPushContinuation := m.pendingPushContinuation.set (streamId, promisedStreamId) }

theorem awaiting_target (m : Manager) (streamId promisedStreamId : StreamId) :
    (m.awaiting streamId promisedStreamId).continuationTarget streamId = promisedStreamId := by
  have hself := Table.get_set_self m.pendingPushContinuation (streamId, promisedStreamId)
  simp only [continuationTarget, awaiting, hself, Option.map_some, Option.getD_some]

theorem Settled.awaiting_done (h : m.Settled) (streamId promisedStreamId : StreamId) :
    (m.awaiting streamId promisedStreamId).continuationDone streamId = m.promising promisedStreamId := by
  have hself := Table.get_set_self m.pendingPushContinuation (streamId, promisedStreamId)
  have hforgotten : (m.pendingPushContinuation.set (streamId, promisedStreamId)).delete streamId = m.pendingPushContinuation := by
    rw [h.pushes]
    apply Table.ext
    simp [Table.delete, Table.set, Table.setEntries, Table.empty]
  simp only [continuationDone, awaiting, hself, Option.map_some, clearPushContinuation, Option.isSome_some, if_true, hforgotten]
  rfl

/-- A block that arrives between blocks is decoded by itself, whatever kind it is and however it is cut. -/
theorem Settled.took (h : m.Settled) (b : IncomingBlock) (hdelivered : b.Delivered m) :
    TookBlock b.target (decodeHeaders b.bytes) (m.receive b.frames) := by
  obtain ⟨kind, first, continuations⟩ := b
  cases kind with
  | headers streamId endStream =>
      obtain ⟨st, hget⟩ := Option.isSome_iff_exists.mp hdelivered
      obtain rfl : st.id = streamId := Table.key_of_get hget
      cases continuations with
      | none =>
          have htook := h.tookHeaders hget endStream first
          have hreceive := @receive_concat m [] (by simp) (headersFrame st.id true endStream first)
          exact hreceive ▸ htook
      | some rest =>
          obtain ⟨middle, last⟩ := rest
          have hreceive := receive_split m (fun m' => dispatch_headers_returns m' st.id endStream first) st.id middle last
          rw [dispatch_headers_more hget] at hreceive
          exact hreceive ▸ h.tookContinuations (h.target st.id) (h.done st.id) (h.collected st (Table.mem_of_get hget)) first middle last
  | pushPromise streamId promisedStreamId =>
      cases continuations with
      | none =>
          have htook := h.tookPushPromise streamId promisedStreamId first
          have hreceive := @receive_concat m [] (by simp) (pushPromiseFrame streamId promisedStreamId true first)
          exact hreceive ▸ htook
      | some rest =>
          obtain ⟨middle, last⟩ := rest
          have hreceive := receive_split m (fun m' => dispatch_pushPromise_returns m' streamId promisedStreamId first) streamId
            middle last
          exact hreceive ▸ @Settled.tookContinuations _ (newPushStream promisedStreamId) (h.promising promisedStreamId)
            (m.awaiting streamId promisedStreamId) streamId (awaiting_target m streamId promisedStreamId)
            (h.awaiting_done streamId promisedStreamId) rfl first middle last

theorem Settled.produces (h : m.Settled) {b : IncomingBlock} (hdelivered : b.Delivered m) :
    m.produces b = HpackDecoder.initial.headers b.bytes := by
  have htook := h.took b hdelivered
  rw [← decodeHeaders_toOption, Manager.produces]
  cases hdecode : decodeHeaders b.bytes with
  | error e =>
      have herror := htook.error e hdecode
      split
      · rename_i m' hreceive
        rw [hreceive] at herror
        exact absurd herror (by simp)
      · rfl
  | ok headers =>
      obtain ⟨hreturns, hof⟩ := htook.ok headers hdecode
      split
      · rename_i m' hreceive
        rw [hreceive] at hof
        exact hof
      · rename_i m' e hreceive
        rw [hreceive] at hreturns
        exact absurd hreturns (by simp)

/-! ### Whole histories -/

theorem Settled.event (h : m.Settled) (event : ConnectionEvent) : (m.event event).Settled := by
  cases event with
  | other op hscope => exact h.step hscope
  | block b =>
      by_cases hdelivered : b.Delivered m
      · exact (h.took b hdelivered).settled
      · obtain ⟨kind, fragments⟩ := b
        cases kind with
        | pushPromise streamId promisedStreamId => exact absurd trivial hdelivered
        | headers streamId endStream =>
            have hmissing : m.streams.get streamId = none := Option.not_isSome_iff_eq_none.mp hdelivered
            have hignored : m.event (.block ⟨.headers streamId endStream, fragments⟩) = m :=
              congrArg Prod.fst (h.ignoresHeaders hmissing endStream fragments)
            rw [hignored]
            exact h

theorem after_settled (history : List ConnectionEvent) : (after history).Settled := by
  induction history using List.reverseRecOn with
  | nil => exact create_settled
  | append_singleton history event ih =>
      rw [after, List.foldl_append]
      exact ih.event event

end Manager

/-- Every block the manager takes in a history gets the map the shared decoder makes of it. -/
def OneContext (history : List ConnectionEvent) : Prop :=
  ∀ before b later, history = before ++ .block b :: later → b.Delivered (Manager.after before) →
    (Manager.after before).produces b = (sharedDecoder before).headers b.bytes

/-- The block's indices resolve in a new table if and only if they resolve in the one the history left. -/
def IncomingBlock.Standalone (b : IncomingBlock) (before : List ConnectionEvent) : Prop :=
  ∀ reps, readBlock b.bytes = some reps → (Resolves .initial reps ↔ Resolves (sharedDecoder before).dynamic reps)

theorem produces_eq_shared_iff (before : List ConnectionEvent) {b : IncomingBlock} (hdelivered : b.Delivered (Manager.after before)) :
    (Manager.after before).produces b = (sharedDecoder before).headers b.bytes ↔ b.Standalone before := by
  rw [(Manager.after_settled before).produces hdelivered]
  exact headers_eq_initial_iff (sharedDecoder before) b.bytes

/-- The manager keeps one HPACK context through a history exactly when every block it takes stands alone. -/
theorem oneContext_iff (history : List ConnectionEvent) :
    OneContext history ↔ ∀ before b later, history = before ++ .block b :: later → b.Delivered (Manager.after before) →
      b.Standalone before := by
  constructor
  · intro h before b later hhistory hdelivered
    exact (produces_eq_shared_iff before hdelivered).mp (h before b later hhistory hdelivered)
  · intro h before b later hhistory hdelivered
    exact (produces_eq_shared_iff before hdelivered).mpr (h before b later hhistory hdelivered)

/-- A literal with incremental indexing on stream 1. -/
def addsEntry : IncomingBlock where
  kind := .headers 1 false
  fragments := ⟨[0x40, 0x01, 0x78, 0x01, 0x79], none⟩

/-- An indexed field on stream 3 that names the newest entry of the dynamic table. -/
def usesEntry : IncomingBlock where
  kind := .headers 3 false
  fragments := ⟨[0xbe], none⟩

def twoOpened : List ConnectionEvent := [.other .openStream (by decide), .other .openStream (by decide)]

/-- The second block throws where the shared decoder finds the entry of the first. -/
theorem earlier_entry_lost :
    (sharedDecoder (twoOpened ++ [.block addsEntry])).headers usesEntry.bytes = some (Table.empty.set ("x", "y")) ∧
      (Manager.after (twoOpened ++ [.block addsEntry])).produces usesEntry = none ∧
      ¬ OneContext (twoOpened ++ [.block addsEntry, .block usesEntry]) := by
  have hshared : (sharedDecoder (twoOpened ++ [.block addsEntry])).headers usesEntry.bytes = some (Table.empty.set ("x", "y")) := by
    decide +kernel
  have hproduced : (Manager.after (twoOpened ++ [.block addsEntry])).produces usesEntry = none := by
    decide +kernel
  refine ⟨hshared, hproduced, fun h => ?_⟩
  have hsame := h (twoOpened ++ [.block addsEntry]) usesEntry [] rfl (by
    show (Table.get _ _).isSome = true
    decide +kernel)
  rw [hshared, hproduced] at hsame
  exact absurd hsame (by simp)

end BrowsercoreHttp2
