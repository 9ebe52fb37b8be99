import BrowsercoreHttp2.Stream.Lifecycle

/-!
# Stream handles

`openStream` hands out the stream itself, so its holder sees what becomes of it after it has left the table.
`HandleMove` lists what the operations are made of that create no stream: they write a stream back, or close it,
take it out of the table and leave it at that. Only a DATA frame with octets moves a receive window.
-/

namespace BrowsercoreHttp2

open Relation

/-- The operation takes octets off the receive windows. -/
def ManagerOp.takes : ManagerOp → Bool
  | .dispatch (.data frame) => frame.payload ≠ []
  | _ => false

namespace Manager

variable {m m' m'' : Manager} {st st' : ManagedStream} {takes : Bool}

inductive HandleMove (takes : Bool) : Manager → Manager → Prop
  | aside {m m' : Manager} (hstreams : m'.streams = m.streams) (hretired : m'.retired = m.retired)
      (hwindow : takes = false → m'.connectionReceiveWindow = m.connectionReceiveWindow) : HandleMove takes m m'
  | written {m : Manager} {st st' : ManagedStream} (hget : m.streams.get st.id = some st) (hid : st'.id = st.id)
      (hclient : st'.isPushPromise = st.isPushPromise) (hwindow : takes = false → st'.remoteWindow = st.remoteWindow) :
      HandleMove takes m (m.setStream st')
  | finalized {m : Manager} {st st' : ManagedStream} (hget : m.streams.get st.id = some st) (hid : st'.id = st.id)
      (hclient : st'.isPushPromise = st.isPushPromise) : HandleMove takes m (m.finalizeStream st')

/-- Any number of moves. -/
abbrev HandleMoves (takes : Bool) : Manager → Manager → Prop := ReflTransGen (HandleMove takes)

/-! ### The handlers -/

theorem HandleMove.perform (m : Manager) (effect : Effect) : HandleMove takes m (m.perform effect) := .aside rfl rfl fun _ => rfl

theorem maybeResolveResponse_handleMoves (hget : m.streams.get st.id = some st) :
    HandleMoves takes m (m.maybeResolveResponse st) := by
  rw [maybeResolveResponse]
  split
  · exact .refl
  · split
    · exact .refl
    · dsimp only
      split
      · exact ((ReflTransGen.single (.perform m _)).tail (.finalized hget rfl rfl)).tail (.perform _ _)
      · exact (ReflTransGen.single (.finalized hget rfl rfl)).tail (.perform _ _)

theorem rejectStream_handleMoves (hget : m.streams.get st.id = some st) (hid : st'.id = st.id)
    (hclient : st'.isPushPromise = st.isPushPromise) (err : JsError) : HandleMoves takes m (m.rejectStream st' err) := by
  rw [rejectStream]
  split
  · exact .single (.finalized hget hid hclient)
  · exact (ReflTransGen.single (.finalized hget hid hclient)).tail (.perform _ _)

theorem settled_handleMoves (hget : m.streams.get st.id = some st) (hid : st'.id = st.id)
    (hclient : st'.isPushPromise = st.isPushPromise) (hwindow : takes = false → st'.remoteWindow = st.remoteWindow) :
    HandleMoves takes m ((m.setStream st').maybeResolveResponse st') :=
  .trans (.single (.written hget hid hclient hwindow)) (maybeResolveResponse_handleMoves (Table.get_set_self m.streams st'))

theorem SendMove.handleMove (h : SendMove m m') : HandleMoves takes m m' := by
  cases h with
  | limited => exact .single (.aside rfl rfl fun _ => rfl)
  | credited st size hget => exact .single (.written hget rfl rfl fun _ => rfl)
  | sent hchunk =>
      cases hchunk with
      | chunk st chunkLen isLast hget =>
          let sent : Manager := { m.sendDataFrame st.id (st.sendQueue.take chunkLen) isLast with
            connectionSendWindow := m.connectionSendWindow - chunkLen }
          have hsent : HandleMove takes m sent := .aside rfl rfl fun _ => rfl
          have hget' : sent.streams.get st.id = some st := hget
          exact (ReflTransGen.single hsent).tail (.written hget' rfl rfl fun _ => rfl)

theorem handleMoves_of_moves (h : ReflTransGen SendMove m m') : HandleMoves takes m m' := by
  induction h with
  | refl => exact .refl
  | tail _ hmove ih => exact ih.trans hmove.handleMove

theorem forEachStream_handleMoves {body : Manager → ManagedStream → Manager}
    (hbody : ∀ m' st, m'.streams.get st.id = some st → HandleMoves takes m' (body m' st)) :
    HandleMoves takes m (m.forEachStream body) :=
  forEachStream_induction .refl fun m' st h hget => h.trans (hbody m' st hget)

theorem afterData_remoteWindow (st : ManagedStream) (frame : DataFrame) :
    (afterData st frame).remoteWindow = { st.remoteWindow with size := st.remoteWindow.size - frame.payload.length } := by
  rw [afterData]
  dsimp only
  split <;> rfl

theorem transitionOnEndStream_remoteWindow (st : ManagedStream) : st.transitionOnEndStream.remoteWindow = st.remoteWindow := by
  rw [ManagedStream.transitionOnEndStream_eq]

theorem handleData_handleMoves (m : Manager) (frame : DataFrame) :
    HandleMoves (ManagerOp.dispatch (.data frame)).takes m (m.handleData frame) := by
  cases hget : m.streams.get frame.streamId with
  | none =>
      simp only [handleData, hget]
      exact .refl
  | some st =>
      obtain ⟨m₁, haccounted, hrun⟩ := handleData_eq hget
      have hself : m₁.streams.get st.id = some st := by rw [haccounted.streams, Table.get_of_mem (Table.mem_of_get hget)]
      have hempty : (ManagerOp.dispatch (.data frame)).takes = false → (frame.payload.length : Int) = 0 := by
        intro htakes
        have hnil : frame.payload = [] := not_not.mp (of_decide_eq_false htakes)
        rw [hnil, List.length_nil, Nat.cast_zero]
      have htaken : HandleMove (ManagerOp.dispatch (.data frame)).takes m m₁ :=
        .aside haccounted.streams haccounted.retired fun htakes => by
          rw [haccounted.connectionReceiveWindow, hempty htakes, Int.sub_zero]
      have hsame := afterData_eq st frame
      have hid : (afterData st frame).id = st.id := by rw [hsame]
      have hclient : (afterData st frame).isPushPromise = st.isPushPromise := by rw [hsame]
      have hwindow : (ManagerOp.dispatch (.data frame)).takes = false → (afterData st frame).remoteWindow = st.remoteWindow :=
        fun htakes => by rw [afterData_remoteWindow, hempty htakes, Int.sub_zero]
      rw [hrun]
      split
      · let ended : ManagedStream := { afterData st frame with endStreamSeen := true }
        exact .trans (.single htaken) (settled_handleMoves hself ((ManagedStream.transitionOnEndStream_id ended).trans hid)
          ((ManagedStream.transitionOnEndStream_isPushPromise ended).trans hclient)
          fun htakes => (transitionOnEndStream_remoteWindow ended).trans (hwindow htakes))
      · exact .tail (.single htaken) (.written hself hid hclient hwindow)

theorem decodePendingHeaders_keeps {payload : Bytes} {thrown : Option HpackError}
    (h : (st.pushHeaderBytes payload).decodePendingHeaders = (st', thrown)) :
    st'.id = st.id ∧ st'.isPushPromise = st.isPushPromise ∧ st'.remoteWindow = st.remoteWindow := by
  rw [ManagedStream.decodePendingHeaders] at h
  dsimp only at h
  split at h <;> obtain ⟨rfl, -⟩ := Prod.mk.inj h <;> exact ⟨rfl, rfl, rfl⟩

theorem handleHeaders_handleMoves (m : Manager) (frame : HeadersFrame) : HandleMoves takes m (m.handleHeaders frame).1 := by
  rw [handleHeaders]
  split
  · exact .refl
  · rename_i st hget
    have hself : m.streams.get st.id = some st := Table.get_of_mem (Table.mem_of_get hget)
    dsimp only
    split
    · exact .single (.written hself rfl rfl fun _ => rfl)
    · split
      · rename_i st' e hdecode
        obtain ⟨hid, hclient, hwindow⟩ := decodePendingHeaders_keeps hdecode
        exact .single (.written hself hid hclient fun _ => hwindow)
      · rename_i st' hdecode
        obtain ⟨hid, hclient, hwindow⟩ := decodePendingHeaders_keeps hdecode
        have hpromoted : st'.promoteReserved.id = st'.id ∧ st'.promoteReserved.isPushPromise = st'.isPushPromise ∧
            st'.promoteReserved.remoteWindow = st'.remoteWindow := by
          rw [ManagedStream.promoteReserved_eq]
          exact ⟨rfl, rfl, rfl⟩
        obtain ⟨hid', hclient', hwindow'⟩ := hpromoted
        split
        · exact settled_handleMoves hself ((ManagedStream.transitionOnEndStream_id _).trans (hid'.trans hid))
            ((ManagedStream.transitionOnEndStream_isPushPromise _).trans (hclient'.trans hclient))
            fun _ => (transitionOnEndStream_remoteWindow _).trans (hwindow'.trans hwindow)
        · exact settled_handleMoves hself (hid'.trans hid) (hclient'.trans hclient) fun _ => hwindow'.trans hwindow

theorem handleContinuation_handleMoves (m : Manager) (frame : ContinuationFrame) :
    HandleMoves takes m (m.handleContinuation frame).1 := by
  rw [handleContinuation]
  dsimp only
  split
  · exact .refl
  · rename_i st hget
    have hself : m.streams.get st.id = some st := Table.get_of_mem (Table.mem_of_get hget)
    split
    · exact .single (.written hself rfl rfl fun _ => rfl)
    · have hcleared : ∀ promisedId, HandleMove takes m (m.clearPushContinuation frame.streamId promisedId) := by
        intro promisedId
        rw [clearPushContinuation]
        split
        · exact .aside rfl rfl fun _ => rfl
        · exact .aside rfl rfl fun _ => rfl
      have hkept : ∀ promisedId, (m.clearPushContinuation frame.streamId promisedId).streams.get st.id = some st :=
        fun promisedId => by
        rw [clearPushContinuation_streams, hself]
      split
      · rename_i st' e hdecode
        obtain ⟨hid, hclient, hwindow⟩ := decodePendingHeaders_keeps hdecode
        exact .tail (.single (hcleared _)) (.written (hkept _) hid hclient fun _ => hwindow)
      · rename_i st' hdecode
        obtain ⟨hid, hclient, hwindow⟩ := decodePendingHeaders_keeps hdecode
        have hwritten : HandleMoves takes m _ :=
          .tail (.single (hcleared ((m.pendingPushContinuation.get frame.streamId).map Prod.snd)))
            (.written (hkept _) hid hclient fun _ => hwindow)
        split
        · exact (hwritten.tail (.perform _ _)).trans (maybeResolveResponse_handleMoves (Table.get_set_self _ st'))
        · exact hwritten.trans (maybeResolveResponse_handleMoves (Table.get_set_self _ st'))

/-- An operation that creates no stream is made of moves. -/
theorem step_handleMoves {op : ManagerOp} (hop : m.creates op = none) : HandleMoves op.takes m (m.step op) := by
  cases op with
  | openStream => exact absurd hop (Option.some_ne_none _)
  | dispatch frame =>
      cases frame with
      | data frame => exact handleData_handleMoves m frame
      | headers frame => exact handleHeaders_handleMoves m frame
      | priority frame => exact .refl
      | rstStream frame =>
          simp only [step, dispatch, handleRstStream]
          split
          · exact .refl
          · rename_i st hget
            exact rejectStream_handleMoves (Table.get_of_mem (Table.mem_of_get hget)) rfl rfl _
      | settings frame =>
          simp only [step, dispatch, handleSettings]
          split
          · exact .single (.perform m _)
          · exact (handleMoves_of_moves (applyRemoteSettings_moves m frame.settings)).tail (.perform _ _)
      | pushPromise frame => exact absurd hop (Option.some_ne_none _)
      | ping frame =>
          simp only [step, dispatch, handlePing]
          split
          · exact .single (.perform m _)
          · exact .single (.perform m _)
      | goaway frame =>
          refine .head (.perform m _) (forEachStream_handleMoves fun m' st hget => ?_)
          split
          · exact rejectStream_handleMoves hget rfl rfl _
          · exact .refl
      | windowUpdate frame => exact handleMoves_of_moves (handleWindowUpdate_moves m frame)
      | continuation frame => exact handleContinuation_handleMoves m frame
  | sendData streamId data endStream =>
      cases hget : m.streams.get streamId with
      | none =>
          simp only [step, sendData, hget]
          exact .refl
      | some st =>
          have hself : m.streams.get st.id = some st := Table.get_of_mem (Table.mem_of_get hget)
          have hwritten : HandleMove false m (m.setStream (st.written data endStream)) := .written hself rfl rfl fun _ => rfl
          rw [step, sendData_eq hget]
          exact .head hwritten (handleMoves_of_moves (moves_of_sends (drainSendQueue_sends (Table.get_set_self _ _))))
  | applyWindowUpdate streamId increment => exact handleMoves_of_moves (handleWindowUpdate_moves m _)
  | expectResponse streamId resolve reject =>
      simp only [step, expectResponse]
      split
      · exact .single (.perform m _)
      · rename_i st hget
        exact .single (.written (Table.get_of_mem (Table.mem_of_get hget)) rfl rfl fun _ => rfl)
  | abortAll error =>
      rw [step, abortAll_eq]
      exact forEachStream_handleMoves fun m' st hget => rejectStream_handleMoves hget rfl rfl _

/-! ### Creating a stream -/

/-- A stream is put into the table, in the place of the one that had its id, and the rest of the handles is left. -/
structure Inserts (m : Manager) (st : ManagedStream) (m' : Manager) : Prop where
  streams : m'.streams = m.streams.set st
  retired : m'.retired = m.retired ++ (m.streams.get st.id).toList
  window : m'.connectionReceiveWindow = m.connectionReceiveWindow

theorem handlePushPromise_inserts (m : Manager) (frame : PushPromiseFrame) :
    ∃ st, Inserts m st (m.handlePushPromise frame).1 ∧ st.id = frame.promisedStreamId ∧ st.isPushPromise = true ∧
      st.remoteWindow = ⟨defaultInitialWindowSize, defaultInitialWindowSize⟩ := by
  rw [handlePushPromise]
  dsimp only
  split
  · split
    · rename_i st e hdecode
      obtain ⟨hid, hpush, hwindow⟩ := decodePendingHeaders_keeps hdecode
      exact ⟨st, ⟨rfl, rfl, rfl⟩, hid, hpush, hwindow⟩
    · rename_i st hdecode
      obtain ⟨hid, hpush, hwindow⟩ := decodePendingHeaders_keeps hdecode
      exact ⟨st, ⟨rfl, rfl, rfl⟩, hid, hpush, hwindow⟩
  · exact ⟨_, ⟨rfl, rfl, rfl⟩, rfl, rfl, rfl⟩

theorem step_inserts {op : ManagerOp} {id : StreamId} (hop : m.creates op = some id) :
    ∃ st, Inserts m st (m.step op) ∧ st.id = id ∧ st.isPushPromise = decide (op ≠ .openStream) ∧
      st.remoteWindow = ⟨defaultInitialWindowSize, defaultInitialWindowSize⟩ := by
  cases op with
  | openStream => exact ⟨m.newClientStream, ⟨rfl, rfl, rfl⟩, Option.some.inj hop, rfl, rfl⟩
  | dispatch frame =>
      cases frame with
      | pushPromise frame =>
          obtain ⟨st, hinserts, hid, hpush, hwindow⟩ := m.handlePushPromise_inserts frame
          exact ⟨st, hinserts, hid.trans (Option.some.inj hop), hpush, hwindow⟩
      | _ => exact absurd hop.symm (Option.some_ne_none _)
  | _ => exact absurd hop.symm (Option.some_ne_none _)

end Manager

end BrowsercoreHttp2
