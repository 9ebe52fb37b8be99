import BrowsercoreHttp2.Stream.SendQueue
import BrowsercoreHttp2.Stream.Departures

/-!
# What a manager sends

An operation of the manager sends DATA frames off its send queues and then what it has to answer: a SETTINGS
or PING acknowledgement, or the WINDOW_UPDATE frames for a DATA frame. Nothing else makes it send.
-/

namespace BrowsercoreHttp2

open Relation

/-- The frame an effect sends. -/
def Effect.frame : Effect → Option Frame
  | .sendFrame frame => some frame
  | _ => none

/-- The DATA frame that carries a chunk. -/
def dataFrame (id : StreamId) (chunk : Bytes × Bool) : Frame :=
  .data { flags := if chunk.2 then 0x1 else 0, streamId := id, payload := chunk.1 }

def settingsAckFrame : Frame := .settings { flags := 0x1, streamId := 0, ack := true, settings := .empty }

def pingAckFrame (opaqueData : Nat) : Frame := .ping { flags := 0x1, streamId := 0, ack := true, opaqueData }

def creditFrame (streamId : StreamId) (increment : Nat) : Frame :=
  .windowUpdate { flags := 0, streamId, windowSizeIncrement := increment }

namespace Manager

variable {m m' : Manager}

/-- The frames that have been sent, in order. -/
def sent (m : Manager) : List Frame := m.effects.filterMap Effect.frame

@[simp] theorem sent_perform (m : Manager) (effect : Effect) : (m.perform effect).sent = m.sent ++ effect.frame.toList := by
  rw [sent, perform, List.filterMap_append, ← sent, List.filterMap_cons, List.filterMap_nil]
  cases effect.frame <;> rfl

theorem sent_perform_of_none {effect : Effect} (h : effect.frame = none) (m : Manager) : (m.perform effect).sent = m.sent := by
  rw [sent_perform, h]
  exact List.append_nil _

@[simp] theorem sent_setStream (m : Manager) (st : ManagedStream) : (m.setStream st).sent = m.sent := rfl

@[simp] theorem sent_finalizeStream (m : Manager) (st : ManagedStream) : (m.finalizeStream st).sent = m.sent := by
  rw [finalizeStream, emitEvent, sent_perform_of_none rfl]
  rfl

@[simp] theorem sent_rejectStream (m : Manager) (st : ManagedStream) (err : JsError) : (m.rejectStream st err).sent = m.sent := by
  rw [rejectStream]
  split
  · exact sent_finalizeStream m st
  · rw [sent_perform_of_none rfl, sent_finalizeStream]

@[simp] theorem sent_maybeResolveResponse (m : Manager) (st : ManagedStream) : (m.maybeResolveResponse st).sent = m.sent := by
  rw [maybeResolveResponse]
  split
  · rfl
  · split
    · rfl
    · dsimp only
      split <;> simp [emitEvent, Effect.frame]

theorem sent_forEachStream {body : Manager → ManagedStream → Manager} (h : ∀ m st, (body m st).sent = m.sent) (m : Manager) :
    (m.forEachStream body).sent = m.sent :=
  forEachStream_induction (motive := fun m' => m'.sent = m.sent) rfl fun m' st hbefore _ => (h m' st).trans hbefore

/-! ### Answers -/

/-- The credit a DATA frame is answered with. -/
def creditFrames (m : Manager) (frame : DataFrame) : List Frame :=
  match m.streams.get frame.streamId with
  | none => []
  | some st =>
      match st.state with
      | .closed _ => [creditFrame 0 frame.payload.length]
      | _ => [creditFrame 0 frame.payload.length, creditFrame st.id frame.payload.length]

/-- What a frame that arrives is answered with. -/
def answers (m : Manager) : Frame → List Frame
  | .settings frame => if frame.ack then [] else [settingsAckFrame]
  | .ping frame => if frame.ack then [] else [pingAckFrame frame.opaqueData]
  | .data frame => m.creditFrames frame
  | _ => []

/-- What an operation has to answer. -/
def replies (m : Manager) : ManagerOp → List Frame
  | .dispatch frame => m.answers frame
  | _ => []

theorem sent_handleData (m : Manager) (frame : DataFrame) : (m.handleData frame).sent = m.sent ++ m.creditFrames frame := by
  rw [handleData, creditFrames]
  cases m.streams.get frame.streamId with
  | none => exact (List.append_nil _).symm
  | some st =>
      have hcredited : ∀ m' : Manager, m'.sent = m.sent →
          (match st.state with
            | .closed _ => m'.sendWindowUpdate 0 frame.payload.length
            | _ => (m'.sendWindowUpdate 0 frame.payload.length).sendWindowUpdate st.id frame.payload.length).sent =
          m.sent ++ match st.state with
            | .closed _ => [creditFrame 0 frame.payload.length]
            | _ => [creditFrame 0 frame.payload.length, creditFrame st.id frame.payload.length] := by
        intro m' hsent
        split
        · rw [sendWindowUpdate, sendFrame, sent_perform, hsent]
          rfl
        · rw [sendWindowUpdate, sendFrame, sent_perform, sendWindowUpdate, sendFrame, sent_perform, hsent, List.append_assoc]
          rfl
      dsimp only
      split
      · rw [sent_maybeResolveResponse, sent_setStream]
        exact hcredited _ rfl
      · rw [sent_setStream]
        exact hcredited _ rfl

theorem sent_handleHeaders (m : Manager) (frame : HeadersFrame) : (m.handleHeaders frame).1.sent = m.sent := by
  rw [handleHeaders]
  split
  · rfl
  · dsimp only
    split
    · rfl
    · split
      · rfl
      · exact sent_maybeResolveResponse _ _

theorem sent_handleContinuation (m : Manager) (frame : ContinuationFrame) : (m.handleContinuation frame).1.sent = m.sent := by
  rw [handleContinuation]
  dsimp only
  split
  · rfl
  · split
    · rfl
    · have hcleared : ∀ promised, (m.clearPushContinuation frame.streamId promised).sent = m.sent := by
        intro promised
        rw [clearPushContinuation]
        split <;> rfl
      split
      · exact hcleared _
      · rw [sent_maybeResolveResponse]
        split
        · rw [emitEvent, sent_perform_of_none rfl, sent_setStream, hcleared]
        · exact hcleared _

theorem sent_handlePushPromise (m : Manager) (frame : PushPromiseFrame) : (m.handlePushPromise frame).1.sent = m.sent := by
  rw [handlePushPromise]
  dsimp only
  split
  · split
    · rfl
    · exact sent_perform_of_none rfl _
  · rfl

theorem sent_handleRstStream (m : Manager) (frame : RstStreamFrame) : (m.handleRstStream frame).sent = m.sent := by
  rw [handleRstStream]
  split
  · rfl
  · exact sent_rejectStream _ _ _

theorem sent_handleGoaway (m : Manager) (frame : GoawayFrame) : (m.handleGoaway frame).sent = m.sent := by
  rw [handleGoaway]
  refine (sent_forEachStream (fun m st => ?_) _).trans (sent_perform_of_none rfl m)
  split
  · exact sent_rejectStream _ _ _
  · rfl

theorem sent_abortAll (m : Manager) (error : JsError) : (m.abortAll error).sent = m.sent :=
  sent_forEachStream (fun m _ => sent_rejectStream m _ error) m

theorem sent_expectResponse (m : Manager) (streamId : StreamId) (resolve reject : Callback) :
    (m.expectResponse streamId resolve reject).sent = m.sent := by
  rw [expectResponse]
  split
  · exact sent_perform_of_none rfl m
  · rfl

theorem keys_expectResponse (m : Manager) (streamId : StreamId) (resolve reject : Callback) :
    (m.expectResponse streamId resolve reject).streams.keys = m.streams.keys := by
  rw [expectResponse]
  split
  · rfl
  · rename_i st hget
    have hst : st.id ∈ m.streams.keys := List.mem_map_of_mem (Table.mem_of_get hget)
    exact Table.keys_set_of_mem hst

/-! ### Chunks -/

/-- Chunks go out on streams that are in the table, and none is empty. -/
def Chunked (m m' : Manager) : Prop :=
  ∃ chunks : List (StreamId × Bytes × Bool), m'.sent = m.sent ++ chunks.map (fun chunk => dataFrame chunk.1 chunk.2) ∧
    ∀ chunk ∈ chunks, chunk.1 ∈ m.streams.keys ∧ chunk.2.1 ≠ []

theorem Chunked.same (h : m'.sent = m.sent) : Chunked m m' :=
  ⟨[], h.trans (List.append_nil _).symm, fun _ hmem => absurd hmem List.not_mem_nil⟩

theorem Chunked.trans {m'' : Manager} (h : Chunked m m') (hkeys : m'.streams.keys = m.streams.keys) (h' : Chunked m' m'') :
    Chunked m m'' := by
  obtain ⟨chunks, hsent, hchunks⟩ := h
  obtain ⟨chunks', hsent', hchunks'⟩ := h'
  refine ⟨chunks ++ chunks', ?_, List.forall_mem_append.mpr ⟨hchunks, fun chunk hmem => ?_⟩⟩
  · rw [hsent', hsent, List.map_append, List.append_assoc]
  · rw [← hkeys]
    exact hchunks' chunk hmem

theorem SendsChunk.chunked (h : SendsChunk m m') : Chunked m m' := by
  cases h with
  | chunk st chunkLen isLast hget hpos hqueue =>
      refine ⟨[(st.id, st.sendQueue.take chunkLen, isLast)], sent_perform m _, fun chunk hmem => ?_⟩
      rw [List.mem_singleton.mp hmem]
      refine ⟨Table.mem_keys_iff.mpr ⟨st, hget⟩, List.ne_nil_of_length_pos ?_⟩
      rw [List.length_take]
      exact lt_min hpos (hpos.trans_le hqueue)

theorem SendMove.keys (h : SendMove m m') : m'.streams.keys = m.streams.keys := by
  have hset : ∀ (m : Manager) (st st' : ManagedStream), m.streams.get st.id = some st → st'.id = st.id →
      (m.setStream st').streams.keys = m.streams.keys := by
    intro m st st' hget hid
    exact Table.keys_set_of_mem (hid ▸ List.mem_map_of_mem (Table.mem_of_get hget))
  cases h with
  | limited => rfl
  | credited st size hget => exact hset m st _ hget rfl
  | sent hchunk =>
      cases hchunk with
      | chunk st chunkLen isLast hget => exact hset m st _ hget rfl

theorem sendMoves_keys (h : ReflTransGen SendMove m m') : m'.streams.keys = m.streams.keys := by
  induction h with
  | refl => rfl
  | tail _ hmove ih => exact hmove.keys.trans ih

theorem SendMove.chunked (h : SendMove m m') : Chunked m m' := by
  cases h with
  | limited => exact .same rfl
  | credited => exact .same rfl
  | sent hchunk => exact hchunk.chunked

theorem sendMoves_chunked (h : ReflTransGen SendMove m m') : Chunked m m' := by
  induction h with
  | refl => exact .same rfl
  | tail hmoves hmove ih => exact ih.trans (sendMoves_keys hmoves) hmove.chunked

theorem sendData_chunked (m : Manager) (streamId : StreamId) (data : Bytes) (endStream : Bool) :
    Chunked m (m.sendData streamId data endStream) := by
  cases hget : m.streams.get streamId with
  | none =>
      rw [sendData, hget]
      exact .same rfl
  | some st =>
      have hmem : st.id ∈ m.streams.keys := List.mem_map_of_mem (Table.mem_of_get hget)
      have hkeys : (m.setStream (st.written data endStream)).streams.keys = m.streams.keys := Table.keys_set_of_mem hmem
      have hdrained := sendMoves_chunked (moves_of_sends
        (drainSendQueue_sends (m := m.setStream (st.written data endStream)) (Table.get_set_self m.streams _)))
      rw [sendData_eq hget]
      exact (Chunked.same (m.sent_setStream _)).trans hkeys hdrained

/-- An operation sends chunks of what is queued and then what it has to answer. -/
theorem step_sent (m : Manager) (op : ManagerOp) :
    ∃ chunks : List (StreamId × Bytes × Bool),
      (m.step op).sent = m.sent ++ chunks.map (fun chunk => dataFrame chunk.1 chunk.2) ++ m.replies op ∧
        (∀ chunk ∈ chunks, chunk.1 ∈ m.streams.keys ∧ chunk.2.1 ≠ []) ∧ (op.scope ≠ .sends → chunks = []) := by
  have hquiet : ∀ op, (m.step op).sent = m.sent ++ m.replies op → ∃ chunks : List (StreamId × Bytes × Bool),
      (m.step op).sent = m.sent ++ chunks.map (fun chunk => dataFrame chunk.1 chunk.2) ++ m.replies op ∧
        (∀ chunk ∈ chunks, chunk.1 ∈ m.streams.keys ∧ chunk.2.1 ≠ []) ∧ (op.scope ≠ .sends → chunks = []) := by
    intro op hsent
    exact ⟨[], by rw [hsent, List.map_nil, List.append_nil], fun _ hmem => absurd hmem List.not_mem_nil, fun _ => rfl⟩
  have hsends : ∀ op, op.scope = .sends → m.replies op = [] → Chunked m (m.step op) → ∃ chunks : List (StreamId × Bytes × Bool),
      (m.step op).sent = m.sent ++ chunks.map (fun chunk => dataFrame chunk.1 chunk.2) ++ m.replies op ∧
        (∀ chunk ∈ chunks, chunk.1 ∈ m.streams.keys ∧ chunk.2.1 ≠ []) ∧ (op.scope ≠ .sends → chunks = []) := by
    intro op hscope hnone hchunked
    obtain ⟨chunks, hsent, hchunks⟩ := hchunked
    exact ⟨chunks, by rw [hsent, hnone, List.append_nil], hchunks, fun hother => absurd hscope hother⟩
  have hunanswered : ∀ {m' : Manager}, m'.sent = m.sent → m'.sent = m.sent ++ [] := fun h => h.trans (List.append_nil _).symm
  cases op with
  | openStream => exact hquiet _ (List.append_nil _).symm
  | dispatch frame =>
      cases frame with
      | data frame => exact hquiet _ (m.sent_handleData frame)
      | headers frame => exact hquiet _ (hunanswered (m.sent_handleHeaders frame))
      | priority frame => exact hquiet _ (List.append_nil _).symm
      | rstStream frame => exact hquiet _ (hunanswered (m.sent_handleRstStream frame))
      | settings frame =>
          cases hack : frame.ack with
          | true =>
              have hsame : m.step (.dispatch (.settings frame)) = m.emitEvent .settingsAck := if_pos hack
              refine hquiet _ ?_
              rw [hsame, emitEvent, sent_perform, replies, answers, if_pos hack]
              rfl
          | false =>
              have happlied : m.step (.dispatch (.settings frame)) = (m.applyRemoteSettings frame.settings).sendSettingsAck :=
                if_neg (Bool.eq_false_iff.mp hack)
              obtain ⟨chunks, hsent, hchunks⟩ := sendMoves_chunked (applyRemoteSettings_moves m frame.settings)
              refine ⟨chunks, ?_, hchunks, fun hother => absurd rfl hother⟩
              rw [happlied, sendSettingsAck, sendFrame, sent_perform, hsent, replies, answers, if_neg (Bool.eq_false_iff.mp hack)]
              rfl
      | pushPromise frame => exact hquiet _ (hunanswered (m.sent_handlePushPromise frame))
      | ping frame =>
          refine hquiet _ ?_
          show (m.handlePing frame).sent = _
          rw [handlePing, replies, answers]
          split
          · rw [emitEvent, sent_perform]
            rfl
          · rw [sendPingAck, sendFrame, sent_perform]
            rfl
      | goaway frame => exact hquiet _ (hunanswered (m.sent_handleGoaway frame))
      | windowUpdate frame => exact hsends _ rfl rfl (sendMoves_chunked (handleWindowUpdate_moves m frame))
      | continuation frame => exact hquiet _ (hunanswered (m.sent_handleContinuation frame))
  | sendData streamId data endStream => exact hsends _ rfl rfl (m.sendData_chunked streamId data endStream)
  | applyWindowUpdate streamId increment =>
      exact hsends _ rfl rfl (sendMoves_chunked (handleWindowUpdate_moves m ⟨0, streamId, increment⟩))
  | expectResponse streamId resolve reject => exact hquiet _ (hunanswered (m.sent_expectResponse streamId resolve reject))
  | abortAll error => exact hquiet _ (hunanswered (m.sent_abortAll error))

end Manager

end BrowsercoreHttp2
