import BrowsercoreHttp2.Stream.Departures

/-!
# A stream that stays

Most frames leave a stream where it is: those of other streams do not touch its entry, and what settings, window
updates and header blocks write into it moves the send side and the headers only. A property that survives these
changes is kept by every frame that does not touch the stream.
-/

namespace BrowsercoreHttp2

open Relation

/-- A frame writes a stream, takes it out of the table or puts another in its place. -/
def Frame.Touches (id : StreamId) : Frame → Prop
  | .data frame => frame.streamId = id
  | .headers frame => frame.streamId = id
  | .rstStream frame => frame.streamId = id
  | .pushPromise frame => frame.promisedStreamId = id
  | .goaway frame => frame.lastStreamId < id
  | _ => False

/-- A property that neither the send side nor a header block changes, and of no stream that is about to resolve. -/
structure ManagedStream.Lasting (P : ManagedStream → Prop) : Prop where
  sends : ∀ st localWindow sendQueue, P st → P { st with localWindow, sendQueue }
  collects : ∀ st pendingHeaderBytes, P st → P { st with pendingHeaderBytes }
  decodes : ∀ st responseHeaders, P st → P { st with pendingHeaderBytes := [], responseHeaders, headersComplete := true }
  waits : ∀ st, P st → st.headersComplete = true → st.endStreamSeen = true → st.resolve = none

theorem ManagedStream.Lasting.decoded {P : ManagedStream → Prop} (hlasting : Lasting P) {st st' : ManagedStream}
    {payload : Bytes} {thrown : Option HpackError} (h : P st)
    (hdecode : (st.pushHeaderBytes payload).decodePendingHeaders = (st', thrown)) : P st' := by
  rw [decodePendingHeaders] at hdecode
  dsimp only at hdecode
  split at hdecode
  · obtain ⟨rfl, -⟩ := Prod.mk.inj hdecode
    exact hlasting.collects st [] h
  · obtain ⟨rfl, -⟩ := Prod.mk.inj hdecode
    exact hlasting.decodes st _ h

namespace Manager

open ManagedStream (Lasting)

variable {m m' : Manager} {st : ManagedStream} {id : StreamId}

/-- A stream with the property is in the table under this id. -/
def Holds (m : Manager) (id : StreamId) (P : ManagedStream → Prop) : Prop := ∃ st, m.streams.get id = some st ∧ P st

/-! ### Frames of other streams -/

theorem settled_get_ne (m : Manager) (h : st.id ≠ id) :
    ((m.setStream st).maybeResolveResponse st).streams.get id = m.streams.get id := by
  rw [maybeResolveResponse_get_ne _ st (Ne.symm h)]
  exact Table.get_set_ne m.streams h

theorem handleData_get_ne {frame : DataFrame} (h : frame.streamId ≠ id) :
    (m.handleData frame).streams.get id = m.streams.get id := by
  cases hget : m.streams.get frame.streamId with
  | none => rw [handleData, hget]
  | some st =>
      obtain ⟨m₁, haccounted, hrun⟩ := handleData_eq hget
      have hother : (afterData st frame).id ≠ id := by
        have hbuffered : (afterData st frame).id = st.id := by rw [afterData_eq]
        rw [hbuffered, Table.key_of_get hget]
        exact h
      rw [hrun, ← haccounted.streams]
      split
      · apply settled_get_ne
        rw [ManagedStream.transitionOnEndStream_id]
        exact hother
      · exact Table.get_set_ne m₁.streams hother

theorem handleHeaders_get_ne {frame : HeadersFrame} (h : frame.streamId ≠ id) :
    (m.handleHeaders frame).1.streams.get id = m.streams.get id := by
  rw [handleHeaders]
  split
  · rfl
  · rename_i st hget
    have hother : st.id ≠ id := by
      rw [Table.key_of_get hget]
      exact h
    dsimp only
    split
    · exact Table.get_set_ne m.streams hother
    · split
      · rename_i st' e hdecode
        apply Table.get_set_ne
        rw [(kept_of_decoded hdecode).1]
        exact hother
      · rename_i st' hdecode
        have hpromoted : st'.promoteReserved.id ≠ id := by
          rw [ManagedStream.promoteReserved_id, (kept_of_decoded hdecode).1]
          exact hother
        apply settled_get_ne
        split
        · rw [ManagedStream.transitionOnEndStream_id]
          exact hpromoted
        · exact hpromoted

theorem handleRstStream_get_ne {frame : RstStreamFrame} (h : frame.streamId ≠ id) :
    (m.handleRstStream frame).streams.get id = m.streams.get id := by
  rw [handleRstStream]
  split
  · rfl
  · rename_i st hget
    rw [rejectStream_streams]
    apply Table.get_delete_ne
    rw [Table.key_of_get hget]
    exact Ne.symm h

theorem handlePushPromise_get_ne {frame : PushPromiseFrame} (h : frame.promisedStreamId ≠ id) :
    (m.handlePushPromise frame).1.streams.get id = m.streams.get id := by
  obtain ⟨st, hchanges, hstreams⟩ := handlePushPromise_streams m frame
  rw [hstreams]
  apply Table.get_set_ne
  rw [hchanges.id_eq]
  exact h

theorem handleGoaway_get_of_le {frame : GoawayFrame} (h : ¬ frame.lastStreamId < id) (hget : m.streams.get id = some st) :
    (m.handleGoaway frame).streams.get id = some st := by
  rw [Table.get_eq_some_iff] at hget ⊢
  refine ⟨?_, hget.2⟩
  rw [(handleGoaway_rejects m frame).1]
  apply List.mem_filter.mpr
  exact ⟨hget.1, decide_eq_true (hget.2 ▸ h)⟩

/-! ### What is kept -/

namespace Holds

variable {P : ManagedStream → Prop}

theorem of_get (h : m.Holds id P) (hget : m'.streams.get id = m.streams.get id) : m'.Holds id P := by
  rw [Holds, hget]
  exact h

theorem setStream (m : Manager) (hid : st.id = id) (hst : P st) : (m.setStream st).Holds id P := by
  refine ⟨st, ?_, hst⟩
  rw [← hid]
  exact Table.get_set_self m.streams st

theorem written (h : m.Holds id P) (hget : m.streams.get st.id = some st) {st' : ManagedStream} (hid : st'.id = st.id)
    (hst : P st → P st') : (m.setStream st').Holds id P := by
  by_cases hown : st.id = id
  · obtain ⟨w, hw, hholds⟩ := h
    rw [hown] at hget
    obtain rfl := Option.some.inj (hget.symm.trans hw)
    exact setStream m (hid.trans hown) (hst hholds)
  · exact h.of_get (Table.get_set_ne m.streams (hid ▸ hown))

theorem settle (hlasting : Lasting P) (h : m.Holds id P) (hget : m.streams.get st.id = some st) :
    (m.maybeResolveResponse st).Holds id P := by
  by_cases hown : st.id = id
  · obtain ⟨w, hw, hholds⟩ := h
    rw [hown] at hget
    obtain rfl := Option.some.inj (hget.symm.trans hw)
    rw [maybeResolveResponse_of_waiting m (hlasting.waits st hholds)]
    exact ⟨st, hw, hholds⟩
  · exact h.of_get (maybeResolveResponse_get_ne m st (Ne.symm hown))

theorem sendMove (hlasting : Lasting P) (h : m.Holds id P) (hmove : SendMove m m') : m'.Holds id P := by
  cases hmove with
  | limited => exact h
  | credited st size hget => exact h.written hget rfl (hlasting.sends st _ st.sendQueue)
  | sent hchunk =>
      cases hchunk with
      | chunk st chunkLen isLast hget =>
          let m₁ : Manager := { m.sendDataFrame st.id (st.sendQueue.take chunkLen) isLast with
            connectionSendWindow := m.connectionSendWindow - chunkLen }
          have hsent : m₁.Holds id P := h
          have hself : m₁.streams.get st.id = some st := hget
          rw [afterChunk]
          exact hsent.written hself rfl (hlasting.sends st _ _)

theorem sendMoves (hlasting : Lasting P) (h : m.Holds id P) (hmoves : ReflTransGen SendMove m m') : m'.Holds id P := by
  induction hmoves with
  | refl => exact h
  | tail _ hmove ih => exact ih.sendMove hlasting hmove

/-- A block that continues on the stream, because a PUSH_PROMISE diverts it there, keeps the property as well. -/
theorem continuation (hlasting : Lasting P) (h : m.Holds id P) (frame : ContinuationFrame) :
    (m.handleContinuation frame).1.Holds id P := by
  rw [handleContinuation]
  dsimp only
  split
  · exact h
  · rename_i st hget
    have hself : m.streams.get st.id = some st := Table.get_of_mem (Table.mem_of_get hget)
    split
    · exact h.written hself rfl (hlasting.collects st _)
    · let m₁ := m.clearPushContinuation frame.streamId ((m.pendingPushContinuation.get frame.streamId).map Prod.snd)
      have hstreams : m₁.streams = m.streams := clearPushContinuation_streams m _ _
      have hcleared : m₁.Holds id P := h.of_get (by rw [hstreams])
      rw [← hstreams] at hself
      split
      · rename_i st' e hdecode
        exact hcleared.written hself (kept_of_decoded hdecode).1 fun hst => hlasting.decoded hst hdecode
      · rename_i st' hdecode
        have hwritten := hcleared.written hself (kept_of_decoded hdecode).1 fun hst => hlasting.decoded hst hdecode
        have hself' : (m₁.setStream st').streams.get st'.id = some st' := Table.get_set_self m₁.streams st'
        split
        · exact settle (m := (m₁.setStream st').emitEvent (.push st'.id st'.responseHeaders)) hlasting hwritten hself'
        · exact hwritten.settle hlasting hself'

/-- A frame that does not touch the stream keeps the property. -/
theorem other (hlasting : Lasting P) (h : m.Holds id P) {frame : Frame} (hframe : ¬ frame.Touches id) :
    (m.dispatch frame).1.Holds id P := by
  cases frame with
  | data frame => exact h.of_get (handleData_get_ne hframe)
  | headers frame => exact h.of_get (handleHeaders_get_ne hframe)
  | priority frame => exact h
  | rstStream frame => exact h.of_get (handleRstStream_get_ne hframe)
  | settings frame =>
      rw [dispatch, handleSettings]
      split
      · exact h
      · have hmoved := h.sendMoves hlasting (applyRemoteSettings_moves m frame.settings)
        exact hmoved
  | pushPromise frame => exact h.of_get (handlePushPromise_get_ne hframe)
  | ping frame =>
      rw [dispatch, handlePing]
      split
      · exact h
      · exact h
  | goaway frame =>
      obtain ⟨st, hget, hst⟩ := h
      exact ⟨st, handleGoaway_get_of_le hframe hget, hst⟩
  | windowUpdate frame => exact h.sendMoves hlasting (handleWindowUpdate_moves m frame)
  | continuation frame => exact h.continuation hlasting frame

end Holds

end Manager

end BrowsercoreHttp2
