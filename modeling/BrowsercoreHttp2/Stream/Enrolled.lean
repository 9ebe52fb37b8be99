import BrowsercoreHttp2.Stream.Holds
import BrowsercoreHttp2.Stream.Noninterference

/-!
# Asking for a response

`expectResponse` writes two callbacks into a stream. As long as the stream stays in the table without a complete
response nothing looks at them: every frame does the same whether they are there or not.
-/

namespace BrowsercoreHttp2

/-- The headers and END_STREAM have both arrived. -/
def ManagedStream.Complete (st : ManagedStream) : Prop := st.headersComplete = true ∧ st.endStreamSeen = true

/-- The frame does not promise the stream. -/
def Frame.Spares (id : StreamId) (frame : Frame) : Prop :=
  ∀ promise, frame = .pushPromise promise → promise.promisedStreamId ≠ id

namespace Exchange

/-- Ask for the response of the exchange. -/
def register (x : Exchange) (m : Manager) : Manager := m.expectResponse x.streamId x.resolve x.reject

/-- The stream of the exchange holds its callbacks, another what it held. -/
def enrol (x : Exchange) (st : ManagedStream) : ManagedStream :=
  { st with
    resolve := if st.id = x.streamId then some x.resolve else st.resolve
    reject := if st.id = x.streamId then some x.reject else st.reject }

theorem enrol_id (x : Exchange) (st : ManagedStream) : (x.enrol st).id = st.id := rfl

/-- The manager as it would be if the response had been asked for. -/
def enrolled (x : Exchange) (m : Manager) : Manager := { m with streams := m.streams.update x.enrol x.enrol_id }

variable {x : Exchange} {m : Manager} {st : ManagedStream}

theorem enrol_of_ne (h : st.id ≠ x.streamId) : x.enrol st = st := by
  rw [enrol, if_neg h, if_neg h]

theorem enrolled_get (x : Exchange) (m : Manager) (id : StreamId) :
    (x.enrolled m).streams.get id = (m.streams.get id).map x.enrol :=
  Table.get_update m.streams x.enrol x.enrol_id id

theorem enrolled_keys (x : Exchange) (m : Manager) : (x.enrolled m).streams.keys = m.streams.keys :=
  Table.keys_update m.streams x.enrol x.enrol_id

theorem register_of_get (hget : m.streams.get x.streamId = some st) : x.register m = x.enrolled m := by
  have hset : m.streams.set (x.enrol st) = m.streams.update x.enrol x.enrol_id := by
    have hid := Table.key_of_get hget
    apply Table.ext_of_get
    · rw [Table.keys_update]
      apply Table.keys_set_of_mem
      rw [enrol_id, hid]
      exact Table.mem_keys_iff.mpr ⟨st, hget⟩
    · intro k
      rw [Table.get_set, Table.get_update, enrol_id, hid]
      split
      · rename_i hk
        rw [← hk, hget, Option.map_some]
      · rename_i hk
        cases hother : m.streams.get k with
        | none => rfl
        | some w =>
            have hne : w.id ≠ x.streamId := by
              rw [Table.key_of_get hother]
              exact Ne.symm hk
            rw [Option.map_some, enrol_of_ne hne]
  simp only [register, Manager.expectResponse, hget, enrolled, ← hset, enrol, Table.key_of_get hget, if_true]
  rfl

/-! ### The pieces of the handlers -/

theorem enrolled_setStream (x : Exchange) (m : Manager) (st : ManagedStream) :
    x.enrolled (m.setStream st) = (x.enrolled m).setStream (x.enrol st) := by
  simp only [enrolled, Manager.setStream, Table.update_set]

theorem enrolled_finalizeStream (x : Exchange) (m : Manager) (st : ManagedStream) :
    x.enrolled (m.finalizeStream st) = (x.enrolled m).finalizeStream st := by
  simp only [enrolled, Manager.finalizeStream, Manager.emitEvent, Manager.perform, Table.update_delete]

theorem enrolled_rejectStream (x : Exchange) (m : Manager) (st : ManagedStream) (err : JsError) :
    x.enrolled (m.rejectStream st err) = (x.enrolled m).rejectStream st err := by
  rw [Manager.rejectStream, Manager.rejectStream]
  cases st.reject with
  | none => exact enrolled_finalizeStream x m st
  | some reject =>
      have hgone := enrolled_finalizeStream x m { st with resolve := none, reject := none }
      exact congrArg (fun m => m.perform (.reject reject err)) hgone

theorem enrolled_maybeResolveResponse (x : Exchange) (m : Manager) (st : ManagedStream) :
    x.enrolled (m.maybeResolveResponse st) = (x.enrolled m).maybeResolveResponse st := by
  rw [Manager.maybeResolveResponse, Manager.maybeResolveResponse]
  split
  · rfl
  · cases st.resolve with
    | none => rfl
    | some resolve =>
        dsimp only
        split
        · exact congrArg (fun m => m.perform (.resolve resolve st.response)) (enrolled_finalizeStream x _ _)
        · exact congrArg (fun m => m.perform (.resolve resolve st.response)) (enrolled_finalizeStream x m _)

/-- The response to the stream has not been asked for. -/
def Unasked (x : Exchange) (m : Manager) : Prop := ∀ st, m.streams.get x.streamId = some st → st.resolve = none

/-- If the stream of the exchange is still there, its response is not complete. -/
def Unfinished (x : Exchange) (m : Manager) : Prop := ∀ st, m.streams.get x.streamId = some st → ¬ st.Complete

theorem enrolled_settled (hunasked : st.id = x.streamId → st.resolve = none)
    (hafter : x.Unfinished ((m.setStream st).maybeResolveResponse st)) :
    x.enrolled ((m.setStream st).maybeResolveResponse st) =
      ((x.enrolled m).setStream (x.enrol st)).maybeResolveResponse (x.enrol st) := by
  rw [← enrolled_setStream]
  by_cases hid : st.id = x.streamId
  · rw [Manager.maybeResolveResponse_of_waiting _ fun _ _ => hunasked hid] at hafter ⊢
    have hget : (m.setStream st).streams.get x.streamId = some st := by
      rw [← hid]
      exact Table.get_set_self m.streams st
    rw [Manager.maybeResolveResponse_of_waiting]
    exact fun hheaders hended => absurd ⟨hheaders, hended⟩ (hafter st hget)
  · rw [enrol_of_ne hid]
    exact enrolled_maybeResolveResponse x _ st

/-! ### The handlers -/

theorem enrol_transitionOnEndStream (x : Exchange) (st : ManagedStream) :
    (x.enrol st).transitionOnEndStream = x.enrol st.transitionOnEndStream := by
  have hstate : (x.enrol st).state = st.state := rfl
  rw [ManagedStream.transitionOnEndStream, ManagedStream.transitionOnEndStream, hstate]
  cases st.state with
  | idle => rfl
  | opened => rfl
  | localHalfClosed => rfl
  | remoteHalfClosed => rfl
  | localReserved => rfl
  | remoteReserved => rfl
  | closed => rfl

theorem enrol_promoteReserved (x : Exchange) (st : ManagedStream) :
    (x.enrol st).promoteReserved = x.enrol st.promoteReserved := by
  have hstate : (x.enrol st).state = st.state := rfl
  rw [ManagedStream.promoteReserved, ManagedStream.promoteReserved, hstate]
  split
  · rfl
  · rfl

theorem enrol_decoded (x : Exchange) (st : ManagedStream) (payload : Bytes) :
    ((x.enrol st).pushHeaderBytes payload).decodePendingHeaders =
      (x.enrol (st.pushHeaderBytes payload).decodePendingHeaders.1, (st.pushHeaderBytes payload).decodePendingHeaders.2) := by
  have hblock : ((x.enrol st).pushHeaderBytes payload).pendingHeaderBytes = (st.pushHeaderBytes payload).pendingHeaderBytes :=
    rfl
  rw [ManagedStream.decodePendingHeaders, ManagedStream.decodePendingHeaders, hblock]
  cases decodeHeaders (st.pushHeaderBytes payload).pendingHeaderBytes with
  | error e => rfl
  | ok headers => rfl

theorem enrol_afterData (x : Exchange) (st : ManagedStream) (frame : DataFrame) :
    Manager.afterData (x.enrol st) frame = x.enrol (Manager.afterData st frame) := by
  rw [Manager.afterData, Manager.afterData]
  dsimp only
  split
  · rfl
  · rfl

/-- The manager once a DATA frame is accounted for. -/
def credited (m : Manager) (st : ManagedStream) (frame : DataFrame) : Manager :=
  let m := { m with connectionReceiveWindow := m.connectionReceiveWindow - frame.payload.length }.sendWindowUpdate 0
    frame.payload.length
  match st.state with
  | .closed _ => m
  | _ => m.sendWindowUpdate st.id frame.payload.length

theorem handleData_credited {frame : DataFrame} (hget : m.streams.get frame.streamId = some st) :
    m.handleData frame =
      if frame.flags &&& 0x1 ≠ 0 then
        let st' := { Manager.afterData st frame with endStreamSeen := true }.transitionOnEndStream
        ((credited m st frame).setStream st').maybeResolveResponse st'
      else (credited m st frame).setStream (Manager.afterData st frame) := by
  simp only [Manager.handleData, hget]
  rfl

theorem enrolled_credited (x : Exchange) (m : Manager) (st : ManagedStream) (frame : DataFrame) :
    x.enrolled (credited m st frame) = credited (x.enrolled m) (x.enrol st) frame := by
  have hstate : (x.enrol st).state = st.state := rfl
  rw [credited, credited, hstate]
  split
  · rfl
  · rfl

theorem Unasked.resolve_eq (h : x.Unasked m) {streamId : StreamId} (hget : m.streams.get streamId = some st)
    {st' : ManagedStream} (hid : st'.id = st.id) (hcallbacks : st'.callbacks = st.callbacks) :
    st'.id = x.streamId → st'.resolve = none := by
  intro hown
  rw [(ManagedStream.callbacks_eq_iff.mp hcallbacks).1]
  apply h
  rw [← hown, hid]
  exact Table.get_of_mem (Table.mem_of_get hget)

theorem enrolled_ended (hunasked : st.id = x.streamId → st.resolve = none)
    (hafter : x.Unfinished ((m.setStream { st with endStreamSeen := true }.transitionOnEndStream).maybeResolveResponse
      { st with endStreamSeen := true }.transitionOnEndStream)) :
    ((x.enrolled m).setStream { x.enrol st with endStreamSeen := true }.transitionOnEndStream).maybeResolveResponse
        { x.enrol st with endStreamSeen := true }.transitionOnEndStream =
      x.enrolled ((m.setStream { st with endStreamSeen := true }.transitionOnEndStream).maybeResolveResponse
        { st with endStreamSeen := true }.transitionOnEndStream) := by
  let ended := { st with endStreamSeen := true }
  have hended : { x.enrol st with endStreamSeen := true }.transitionOnEndStream = x.enrol ended.transitionOnEndStream :=
    enrol_transitionOnEndStream x ended
  rw [hended]
  apply Eq.symm
  apply enrolled_settled _ hafter
  rw [ManagedStream.transitionOnEndStream_eq]
  exact hunasked

theorem enrolled_handleData {frame : DataFrame} (h : x.Unasked m) (hafter : x.Unfinished (m.handleData frame)) :
    (x.enrolled m).handleData frame = x.enrolled (m.handleData frame) := by
  have hlookup := enrolled_get x m frame.streamId
  cases hget : m.streams.get frame.streamId with
  | none =>
      rw [hget, Option.map_none] at hlookup
      simp only [Manager.handleData, hget, hlookup]
  | some st =>
      rw [hget, Option.map_some] at hlookup
      rw [handleData_credited hget] at hafter ⊢
      rw [handleData_credited hlookup, enrol_afterData, ← enrolled_credited]
      split
      · rename_i hflag
        rw [if_pos hflag] at hafter
        apply enrolled_ended _ hafter
        rw [Manager.afterData_eq]
        exact h.resolve_eq hget rfl rfl
      · exact (enrolled_setStream x _ _).symm

theorem enrolled_handleHeaders {frame : HeadersFrame} (h : x.Unasked m) (hafter : x.Unfinished (m.handleHeaders frame).1) :
    ((x.enrolled m).handleHeaders frame).1 = x.enrolled (m.handleHeaders frame).1 := by
  have hlookup := enrolled_get x m frame.streamId
  cases hget : m.streams.get frame.streamId with
  | none =>
      rw [hget, Option.map_none] at hlookup
      simp only [Manager.handleHeaders, hget, hlookup]
  | some st =>
      rw [hget, Option.map_some] at hlookup
      simp only [Manager.handleHeaders, hget] at hafter
      simp only [Manager.handleHeaders, hget, hlookup, enrol_decoded]
      cases hwhole : frame.endHeaders with
      | false => exact (enrolled_setStream x m (st.pushHeaderBytes frame.payload)).symm
      | true =>
          simp only [hwhole, Bool.not_true, Bool.false_eq_true, if_false] at hafter ⊢
          cases hdecode : (st.pushHeaderBytes frame.payload).decodePendingHeaders with
          | mk st' thrown =>
              obtain ⟨hid, hcallbacks, -⟩ := Manager.kept_of_decoded hdecode
              simp only [hdecode] at hafter
              cases thrown with
              | some e => exact (enrolled_setStream x m st').symm
              | none =>
                  dsimp only at hafter ⊢
                  let promoted := st'.promoteReserved
                  have hpromoted : promoted.id = st.id ∧ promoted.callbacks = st.callbacks := by
                    rw [← hid, ← hcallbacks]
                    simp only [promoted]
                    rw [ManagedStream.promoteReserved_eq]
                    exact ⟨rfl, rfl⟩
                  rw [enrol_promoteReserved]
                  split
                  · rename_i hend
                    rw [if_pos hend] at hafter
                    exact enrolled_ended (h.resolve_eq hget hpromoted.1 hpromoted.2) hafter
                  · rename_i hend
                    rw [if_neg hend] at hafter
                    exact (enrolled_settled (h.resolve_eq hget hpromoted.1 hpromoted.2) hafter).symm

theorem enrolled_clearPushContinuation (x : Exchange) (m : Manager) (streamId : StreamId) (promisedId : Option StreamId) :
    x.enrolled (m.clearPushContinuation streamId promisedId) = (x.enrolled m).clearPushContinuation streamId promisedId := by
  rw [Manager.clearPushContinuation, Manager.clearPushContinuation]
  split
  · rfl
  · rfl

theorem enrolled_handleContinuation {frame : ContinuationFrame} (h : x.Unasked m)
    (hafter : x.Unfinished (m.handleContinuation frame).1) :
    ((x.enrolled m).handleContinuation frame).1 = x.enrolled (m.handleContinuation frame).1 := by
  have hpending : (x.enrolled m).pendingPushContinuation = m.pendingPushContinuation := rfl
  rw [Manager.handleContinuation] at hafter ⊢
  rw [Manager.handleContinuation, hpending]
  generalize (m.pendingPushContinuation.get frame.streamId).map Prod.snd = promisedId at hafter ⊢
  dsimp only at hafter ⊢
  rw [enrolled_get]
  cases hget : m.streams.get (promisedId.getD frame.streamId) with
  | none => rfl
  | some st =>
      simp only [hget] at hafter
      simp only [Option.map_some, enrol_decoded]
      cases hwhole : frame.endHeaders with
      | false => exact (enrolled_setStream x m (st.pushHeaderBytes frame.payload)).symm
      | true =>
          simp only [hwhole, Bool.not_true, Bool.false_eq_true, if_false] at hafter ⊢
          cases hdecode : (st.pushHeaderBytes frame.payload).decodePendingHeaders with
          | mk st' thrown =>
              obtain ⟨hid, hcallbacks, -⟩ := Manager.kept_of_decoded hdecode
              simp only [hdecode] at hafter
              rw [← enrolled_clearPushContinuation]
              cases thrown with
              | some e => exact (enrolled_setStream x _ st').symm
              | none =>
                  dsimp only at hafter ⊢
                  have hunasked := h.resolve_eq hget hid hcallbacks
                  have hpush : (x.enrol st').isPushPromise = st'.isPushPromise := rfl
                  rw [hpush]
                  split
                  · rename_i hpushed
                    rw [if_pos hpushed] at hafter
                    let announced :=
                      (m.clearPushContinuation frame.streamId promisedId).emitEvent (.push st'.id st'.responseHeaders)
                    exact (enrolled_settled (m := announced) hunasked hafter).symm
                  · rename_i hpushed
                    rw [if_neg hpushed] at hafter
                    exact (enrolled_settled hunasked hafter).symm

/-! ### Sending -/

theorem enrolled_drainSendQueue (x : Exchange) (m : Manager) (st : ManagedStream) :
    x.enrolled (m.drainSendQueue st) = (x.enrolled m).drainSendQueue (x.enrol st) := by
  fun_induction Manager.drainSendQueue m st with
  | case1 m st hqueue hconnection =>
      have hqueue' : 0 < (x.enrol st).sendQueue.length := hqueue
      have hconnection' : (x.enrolled m).connectionSendWindow ≤ 0 := hconnection
      rw [Manager.drainSendQueue, if_pos hqueue', if_pos hconnection']
  | case2 m st hqueue hconnection hstream =>
      have hqueue' : 0 < (x.enrol st).sendQueue.length := hqueue
      have hconnection' : ¬ (x.enrolled m).connectionSendWindow ≤ 0 := hconnection
      have hstream' : (x.enrol st).localWindow.size ≤ 0 := hstream
      rw [Manager.drainSendQueue, if_pos hqueue', if_neg hconnection', if_pos hstream']
  | case3 m st hqueue hconnection hstream cap hcap =>
      have hqueue' : 0 < (x.enrol st).sendQueue.length := hqueue
      have hconnection' : ¬ (x.enrolled m).connectionSendWindow ≤ 0 := hconnection
      have hstream' : ¬ (x.enrol st).localWindow.size ≤ 0 := hstream
      rw [Manager.drainSendQueue, if_pos hqueue', if_neg hconnection', if_neg hstream']
      exact (if_pos hcap).symm
  | case4 m st hqueue hconnection hstream cap hcap chunkLen isLast m₁ st₁ ih =>
      have hqueue' : 0 < (x.enrol st).sendQueue.length := hqueue
      have hconnection' : ¬ (x.enrolled m).connectionSendWindow ≤ 0 := hconnection
      have hstream' : ¬ (x.enrol st).localWindow.size ≤ 0 := hstream
      rw [ih, enrolled_setStream]
      conv_rhs => rw [Manager.drainSendQueue, if_pos hqueue', if_neg hconnection', if_neg hstream']
      exact (if_neg hcap).symm
  | case5 m st hqueue =>
      have hqueue' : ¬ 0 < (x.enrol st).sendQueue.length := hqueue
      rw [Manager.drainSendQueue, if_neg hqueue']

theorem enrolled_forEachStream {body : Manager → ManagedStream → Manager}
    (hbody : ∀ m st, x.enrolled (body m st) = body (x.enrolled m) (x.enrol st)) (m : Manager) :
    x.enrolled (m.forEachStream body) = (x.enrolled m).forEachStream body := by
  rw [Manager.forEachStream_eq, Manager.forEachStream_eq, enrolled_keys]
  generalize m.streams.keys = keys
  induction keys generalizing m with
  | nil => rfl
  | cons key keys ih =>
      rw [List.foldl_cons, List.foldl_cons, enrolled_get]
      cases m.streams.get key with
      | none => exact ih m
      | some st =>
          have hone := hbody m st
          rw [Option.elim_some, Option.map_some, Option.elim_some, ← hone]
          exact ih (body m st)

theorem enrolled_applyInitialWindowSize (x : Exchange) (m : Manager) (value : Nat) :
    x.enrolled (m.applyInitialWindowSize value) = (x.enrolled m).applyInitialWindowSize value := by
  rw [Manager.applyInitialWindowSize, Manager.applyInitialWindowSize]
  dsimp only
  rw [enrolled_forEachStream (enrolled_drainSendQueue x), enrolled_forEachStream]
  · rfl
  · exact fun m st => enrolled_setStream x m _

theorem enrolled_applyRemoteSettings (x : Exchange) (m : Manager) (settings : SettingsMap) :
    x.enrolled (m.applyRemoteSettings settings) = (x.enrolled m).applyRemoteSettings settings := by
  have hsetting : ∀ (m : Manager) (key value : Nat),
      x.enrolled (m.applyRemoteSetting key value) = (x.enrolled m).applyRemoteSetting key value := by
    intro m key value
    unfold Manager.applyRemoteSetting
    split
    · rfl
    · exact enrolled_applyInitialWindowSize x m value
    · rfl
    · rfl
  rw [Manager.applyRemoteSettings, Manager.applyRemoteSettings]
  generalize settings.entries = entries
  induction entries generalizing m with
  | nil => rfl
  | cons entry entries ih =>
      rw [List.foldl_cons, List.foldl_cons, ih, hsetting]

theorem enrolled_handleSettings (x : Exchange) (m : Manager) (frame : SettingsFrame) :
    x.enrolled (m.handleSettings frame) = (x.enrolled m).handleSettings frame := by
  rw [Manager.handleSettings, Manager.handleSettings, ← enrolled_applyRemoteSettings]
  split
  · rfl
  · rfl

theorem enrolled_handleWindowUpdate (x : Exchange) (m : Manager) (frame : WindowUpdateFrame) :
    x.enrolled (m.handleWindowUpdate frame) = (x.enrolled m).handleWindowUpdate frame := by
  rw [Manager.handleWindowUpdate, Manager.handleWindowUpdate]
  split
  · exact enrolled_forEachStream (enrolled_drainSendQueue x) _
  · rw [enrolled_get]
    cases m.streams.get frame.streamId with
    | none => rfl
    | some st =>
        dsimp only [Option.map_some]
        rw [enrolled_drainSendQueue, enrolled_setStream]
        rfl

/-! ### Frames that do not end the stream -/

theorem enrolled_handlePing (x : Exchange) (m : Manager) (frame : PingFrame) :
    x.enrolled (m.handlePing frame) = (x.enrolled m).handlePing frame := by
  rw [Manager.handlePing, Manager.handlePing]
  split
  · rfl
  · rfl

theorem enrolled_handleRstStream {frame : RstStreamFrame} (h : frame.streamId ≠ x.streamId) :
    x.enrolled (m.handleRstStream frame) = (x.enrolled m).handleRstStream frame := by
  rw [Manager.handleRstStream, Manager.handleRstStream, enrolled_get]
  cases hget : m.streams.get frame.streamId with
  | none => rfl
  | some st =>
      have hne : st.id ≠ x.streamId := by
        rw [Table.key_of_get hget]
        exact h
      dsimp only [Option.map_some]
      rw [enrol_of_ne hne]
      exact enrolled_rejectStream x m _ _

theorem enrolled_handleGoaway {frame : GoawayFrame} (h : ¬ frame.lastStreamId < x.streamId) :
    x.enrolled (m.handleGoaway frame) = (x.enrolled m).handleGoaway frame := by
  rw [Manager.handleGoaway, Manager.handleGoaway]
  apply enrolled_forEachStream
  intro m st
  rw [enrol_id]
  split
  · rename_i hlast
    have hne : st.id ≠ x.streamId := fun hid => h (hid ▸ hlast)
    rw [enrol_of_ne hne]
    exact enrolled_rejectStream x m _ _
  · rfl

theorem enrolled_insertStream (m : Manager) (h : st.id ≠ x.streamId) :
    x.enrolled (m.insertStream st) = (x.enrolled m).insertStream st := by
  have hdisplaced : (x.enrolled m).streams.get st.id = m.streams.get st.id := by
    rw [enrolled_get]
    cases hget : m.streams.get st.id with
    | none => rfl
    | some w =>
        rw [Option.map_some, enrol_of_ne]
        rw [Table.key_of_get hget]
        exact h
  rw [Manager.insertStream, Manager.insertStream, hdisplaced, enrolled_setStream, enrol_of_ne h]
  rfl

theorem enrolled_handlePushPromise {frame : PushPromiseFrame} (h : frame.promisedStreamId ≠ x.streamId) :
    x.enrolled (m.handlePushPromise frame).1 = ((x.enrolled m).handlePushPromise frame).1 := by
  rw [Manager.handlePushPromise, Manager.handlePushPromise]
  dsimp only
  split
  · cases hdecode : ((ManagedStream.create frame.promisedStreamId ⟨defaultInitialWindowSize, defaultInitialWindowSize⟩
        ⟨defaultInitialWindowSize, defaultInitialWindowSize⟩ true).pushHeaderBytes frame.payload).decodePendingHeaders with
    | mk st thrown =>
        have hne : st.id ≠ x.streamId := by
          rw [(Manager.kept_of_decoded hdecode).1]
          exact h
        cases thrown with
        | some e => exact enrolled_insertStream m hne
        | none => exact congrArg (fun m => m.emitEvent (.push st.id st.responseHeaders)) (enrolled_insertStream m hne)
  · let promised := (ManagedStream.create frame.promisedStreamId ⟨defaultInitialWindowSize, defaultInitialWindowSize⟩
      ⟨defaultInitialWindowSize, defaultInitialWindowSize⟩ true).pushHeaderBytes frame.payload
    have hinserted : x.enrolled (m.insertStream promised) = (x.enrolled m).insertStream promised := enrolled_insertStream m h
    rw [← hinserted]
    rfl

/-! ### One frame -/

/-- The stream of the exchange is in the table, and its response is not complete. -/
def Undecided (x : Exchange) (m : Manager) : Prop := m.Holds x.streamId fun st => ¬ st.Complete

theorem Undecided.unfinished (h : x.Undecided m) : x.Unfinished m := by
  intro st hget
  obtain ⟨w, hw, hincomplete⟩ := h
  obtain rfl := Option.some.inj (hw.symm.trans hget)
  exact hincomplete

theorem handleRstStream_get (m : Manager) (frame : RstStreamFrame) :
    (m.handleRstStream frame).streams.get frame.streamId = none := by
  rw [Manager.handleRstStream]
  cases hget : m.streams.get frame.streamId with
  | none => exact hget
  | some st =>
      dsimp only
      rw [Manager.rejectStream_streams, show st.id = frame.streamId from Table.key_of_get hget]
      exact Table.get_delete_self m.streams _

/-- A frame that leaves the stream undecided does the same whether the response has been asked for or not. -/
theorem enrolled_dispatch {frame : Frame} (h : x.Unasked m) (hafter : x.Undecided (m.dispatch frame).1)
    (hspares : frame.Spares x.streamId) : ((x.enrolled m).dispatch frame).1 = x.enrolled (m.dispatch frame).1 := by
  cases frame with
  | data frame => exact enrolled_handleData h hafter.unfinished
  | headers frame => exact enrolled_handleHeaders h hafter.unfinished
  | priority => rfl
  | rstStream frame =>
      have hne : frame.streamId ≠ x.streamId := by
        intro hid
        obtain ⟨st, hget, -⟩ := hafter
        have hgone := handleRstStream_get m frame
        rw [hid] at hgone
        exact Option.some_ne_none st (hget.symm.trans hgone)
      exact (enrolled_handleRstStream hne).symm
  | settings frame => exact (enrolled_handleSettings x m frame).symm
  | pushPromise frame => exact (enrolled_handlePushPromise (hspares frame rfl)).symm
  | ping frame => exact (enrolled_handlePing x m frame).symm
  | goaway frame =>
      have hlast : ¬ frame.lastStreamId < x.streamId := by
        obtain ⟨st, hget, -⟩ := hafter
        have hle := Manager.handleGoaway_id_le m frame st (Table.mem_of_get hget)
        rw [Table.key_of_get hget] at hle
        exact not_lt.mpr hle
      exact (enrolled_handleGoaway hlast).symm
  | windowUpdate frame => exact (enrolled_handleWindowUpdate x m frame).symm
  | continuation frame => exact enrolled_handleContinuation h hafter.unfinished

end Exchange

end BrowsercoreHttp2
