import BrowsercoreHttp2.Hpack.Expansion
import BrowsercoreHttp2.Stream.Departures

/-!
# What a manager holds for its peer

A peer makes a manager hold header fields, octets of blocks that are not complete, octets of bodies, and the streams it
promises. Each of these is paid for by an octet of the frame that brought it, and it is held once and delivered once with the
response it belongs to. The texts of the fields are bounded by what the octets can spell.
-/

namespace BrowsercoreHttp2

open Relation

/-- What a stream holds: header fields, octets that have been collected, octets of the body, and itself if it was promised. -/
def ManagedStream.held (st : ManagedStream) : Nat :=
  st.responseHeaders.entries.length + st.pendingHeaderBytes.length + st.responseChunks.flatten.length + st.isPushPromise.toNat

/-- What the streams of the table hold, and the blocks of promises that are to be continued. -/
def Manager.held (m : Manager) : Nat := (m.streams.entries.map ManagedStream.held).sum + m.pendingPushContinuation.entries.length

def Http2Response.size (response : Http2Response) : Nat := response.headers.entries.length + response.body.length

def Effect.delivered : Effect → Option Http2Response
  | .resolve _ response => some response
  | _ => none

/-- The responses that have gone to those who wait for them. -/
def Manager.delivered (m : Manager) : List Http2Response := m.effects.filterMap Effect.delivered

/-- The octets of a payload that the peer can make a manager hold. A promise takes four for the id. -/
def Frame.carried : Frame → Nat
  | .data frame => frame.payload.length
  | .headers frame => frame.payload.length
  | .pushPromise frame => 4 + frame.payload.length
  | .continuation frame => frame.payload.length
  | _ => 0

def ManagerOp.carried : ManagerOp → Nat
  | .dispatch frame => frame.carried
  | _ => 0

/-- The header fields are no longer than the octets can spell. -/
def HeaderMap.Within (octets : Nat) (headers : HeaderMap) : Prop :=
  ∀ field ∈ headers.entries, TextWithin octets field.1 ∧ TextWithin octets field.2

theorem HeaderMap.Within.mono {octets octets' : Nat} {headers : HeaderMap} (h : HeaderMap.Within octets headers) (hle : octets ≤ octets') :
    HeaderMap.Within octets' headers :=
  fun field hfield => ⟨(h field hfield).1.mono hle, (h field hfield).2.mono hle⟩

namespace ManagedStream

variable {st st' : ManagedStream}

@[simp] theorem transitionOnEndStream_held (st : ManagedStream) : st.transitionOnEndStream.held = st.held := by
  rw [transitionOnEndStream_eq]
  rfl

@[simp] theorem promoteReserved_held (st : ManagedStream) : st.promoteReserved.held = st.held := by
  rw [promoteReserved_eq]
  rfl

@[simp] theorem transitionOnEndStream_responseHeaders (st : ManagedStream) : st.transitionOnEndStream.responseHeaders = st.responseHeaders := by
  rw [transitionOnEndStream_eq]

@[simp] theorem promoteReserved_responseHeaders (st : ManagedStream) : st.promoteReserved.responseHeaders = st.responseHeaders := by
  rw [promoteReserved_eq]

theorem pushHeaderBytes_held (st : ManagedStream) (payload : Bytes) : (st.pushHeaderBytes payload).held = st.held + payload.length := by
  simp only [held, pushHeaderBytes, List.length_append]
  omega

/-- A payload is collected, and the block decoded if that has completed it: the fields take the place of the octets. -/
theorem collected_held {octets : Nat} {payload : Bytes} {thrown : Option HpackError} (hst : HeaderMap.Within octets st.responseHeaders)
    (hheld : st.held + payload.length ≤ octets) (h : (st.pushHeaderBytes payload).decodePendingHeaders = (st', thrown)) :
    st'.held ≤ st.held + payload.length ∧ HeaderMap.Within octets st'.responseHeaders := by
  rw [decodePendingHeaders] at h
  dsimp only at h
  split at h
  · obtain ⟨rfl, -⟩ := Prod.mk.inj h
    refine ⟨?_, hst⟩
    simp only [held, pushHeaderBytes, List.length_nil]
    omega
  · rename_i headers hdecoded
    obtain ⟨rfl, -⟩ := Prod.mk.inj h
    obtain ⟨hcount, htexts⟩ := decodeHeaders_within hdecoded
    simp only [pushHeaderBytes, List.length_append] at hcount htexts
    simp only [held] at hheld
    constructor
    · simp only [held, pushHeaderBytes, List.length_nil]
      omega
    · exact fun field hfield => ⟨(htexts field hfield).1.mono (by omega), (htexts field hfield).2.mono (by omega)⟩

theorem response_size (st : ManagedStream) : st.response.size ≤ st.held := by
  simp only [Http2Response.size, response, held]
  omega

end ManagedStream

namespace Manager

variable {m m' : Manager} {st st' : ManagedStream} {octets : Nat}

theorem stripPadding_length (flags : Nat) (payload : Bytes) : (stripPadding flags payload).length ≤ payload.length := by
  rw [stripPadding]
  split
  · dsimp only
    split
    · rw [List.length_drop, List.length_take]
      omega
    · exact Nat.zero_le _
  · exact Nat.le_refl _

theorem afterData_held (st : ManagedStream) (frame : DataFrame) : (afterData st frame).held ≤ st.held + frame.payload.length := by
  have hstripped := stripPadding_length frame.flags frame.payload
  rw [afterData]
  dsimp only
  split
  · simp only [ManagedStream.held, List.flatten_append, List.flatten_singleton, List.length_append]
    omega
  · simp only [ManagedStream.held]
    omega

/-! ### Responses delivered -/

theorem delivered_of_effects {new : List Effect} (heffects : m'.effects = m.effects ++ new) :
    m'.delivered = m.delivered ++ new.filterMap Effect.delivered := by
  rw [delivered, heffects, List.filterMap_append, delivered]

theorem delivered_of_quiet {new : List Effect} (heffects : m'.effects = m.effects ++ new) (hnew : ∀ effect ∈ new, effect.delivered = none) :
    m'.delivered = m.delivered := by
  rw [delivered_of_effects heffects, List.filterMap_eq_nil_iff.mpr hnew, List.append_nil]

theorem perform_delivered (m : Manager) {effect : Effect} (h : effect.delivered = none) : (m.perform effect).delivered = m.delivered :=
  delivered_of_quiet rfl (List.forall_mem_singleton.mpr h)

theorem OnlyCredits.delivered (h : OnlyCredits m m') : m'.delivered = m.delivered := by
  obtain ⟨sent, hsent⟩ := h
  refine delivered_of_quiet hsent fun effect heffect => ?_
  obtain ⟨frame, -, rfl⟩ := List.mem_map.mp heffect
  rfl

theorem rejectStream_delivered (m : Manager) (st : ManagedStream) (err : JsError) : (m.rejectStream st err).delivered = m.delivered := by
  refine delivered_of_quiet (rejectStream_effects m st err) fun effect heffect => ?_
  rw [rejection] at heffect
  rcases List.mem_cons.mp heffect with rfl | hrejected
  · rfl
  · obtain ⟨callback, -, rfl⟩ := Option.map_eq_some_iff.mp (Option.mem_toList.mp hrejected)
    rfl

theorem settlement_delivered (st : ManagedStream) (resolve : Callback) : (settlement st resolve).filterMap Effect.delivered = [st.response] := by
  rw [settlement]
  split <;> rfl

/-! ### The account -/

/-- What is held and what has been delivered has been paid for, and so have the texts of both. -/
structure Paid (octets : Nat) (m : Manager) : Prop where
  balance : m.held + (m.delivered.map Http2Response.size).sum ≤ octets
  streams : ∀ st ∈ m.streams.entries, HeaderMap.Within octets st.responseHeaders
  delivered : ∀ response ∈ m.delivered, HeaderMap.Within octets response.headers

theorem create_paid : Paid 0 create :=
  ⟨Nat.le_refl 0, fun _ hmem => absurd hmem List.not_mem_nil, fun _ hmem => absurd hmem List.not_mem_nil⟩

namespace Paid

theorem mono {octets' : Nat} (h : Paid octets m) (hle : octets ≤ octets') : Paid octets' m :=
  ⟨h.balance.trans hle, fun st hst => (h.streams st hst).mono hle, fun response hmem => (h.delivered response hmem).mono hle⟩

theorem keeps {octets' : Nat} (h : Paid octets m) (hle : octets ≤ octets') (hheld : m'.held + octets ≤ m.held + octets')
    (hstreams : ∀ st ∈ m'.streams.entries, HeaderMap.Within octets' st.responseHeaders) (hdelivered : m'.delivered = m.delivered) :
    Paid octets' m' where
  balance := by
    have hbalance := h.balance
    rw [hdelivered]
    omega
  streams := hstreams
  delivered := by
    rw [hdelivered]
    exact (h.mono hle).delivered

theorem streams_sum_le {l l' : List ManagedStream} (h : l.Sublist l') : (l.map ManagedStream.held).sum ≤ (l'.map ManagedStream.held).sum :=
  (h.map ManagedStream.held).sum_le_sum fun _ _ => Nat.zero_le _

theorem fewer (h : Paid octets m) (hstreams : m'.streams.entries.Sublist m.streams.entries)
    (hpushes : m'.pendingPushContinuation = m.pendingPushContinuation) (hdelivered : m'.delivered = m.delivered) : Paid octets m' := by
  refine h.keeps (Nat.le_refl octets) ?_ (fun st hst => h.streams st (hstreams.subset hst)) hdelivered
  have hsum := streams_sum_le hstreams
  rw [Manager.held, Manager.held, hpushes]
  omega

theorem perform (h : Paid octets m) {effect : Effect} (heffect : effect.delivered = none) : Paid octets (m.perform effect) :=
  h.fewer (List.Sublist.refl _) rfl (m.perform_delivered heffect)

theorem stream_le (h : Paid octets m) (hget : m.streams.get st.id = some st) : st.held ≤ octets := by
  have hmem : st.held ∈ m.streams.entries.map ManagedStream.held := List.mem_map_of_mem (Table.mem_of_get hget)
  have hpart := List.le_sum_of_mem hmem
  have hbalance := h.balance
  rw [Manager.held] at hbalance
  omega

theorem setStream_streams_within (h : Paid octets m) {octets' : Nat} (hle : octets ≤ octets')
    (hfields : HeaderMap.Within octets' st.responseHeaders) :
    ∀ w ∈ (m.setStream st).streams.entries, HeaderMap.Within octets' w.responseHeaders := by
  intro w hw
  rcases Table.mem_set hw with rfl | ⟨hold, -⟩
  · exact hfields
  · exact (h.streams w hold).mono hle

theorem written (h : Paid octets m) {more : Nat} (hget : m.streams.get st.id = some st) (hid : st'.id = st.id)
    (hheld : st'.held ≤ st.held + more) (hfields : HeaderMap.Within (octets + more) st'.responseHeaders) :
    Paid (octets + more) (m.setStream st') := by
  refine h.keeps (Nat.le_add_right _ _) ?_ (h.setStream_streams_within (Nat.le_add_right _ _) hfields) rfl
  have hsum := ((Table.perm_cons_delete hget).map ManagedStream.held).sum_nat
  have hsum' := ((m.streams.set_perm st').map ManagedStream.held).sum_nat
  rw [List.map_cons, List.sum_cons] at hsum hsum'
  rw [hid] at hsum'
  rw [Manager.held, Manager.held, setStream_streams, hsum, hsum']
  show _ + m.pendingPushContinuation.entries.length + _ ≤ _
  omega

theorem rewritten (h : Paid octets m) (hget : m.streams.get st.id = some st) (hid : st'.id = st.id) (hheld : st'.held = st.held)
    (hheaders : st'.responseHeaders = st.responseHeaders) : Paid octets (m.setStream st') := by
  have hbefore := h.streams st (Table.mem_of_get hget)
  have hwritten : Paid (octets + 0) (m.setStream st') := h.written hget hid hheld.le (hheaders ▸ hbefore)
  exact hwritten

theorem inserted (h : Paid octets m) {more : Nat} (hheld : st.held ≤ more) (hfields : HeaderMap.Within (octets + more) st.responseHeaders) :
    Paid (octets + more) (m.insertStream st) := by
  refine h.keeps (Nat.le_add_right _ _) ?_ (h.setStream_streams_within (Nat.le_add_right _ _) hfields) rfl
  have hsum := ((m.streams.set_perm st).map ManagedStream.held).sum_nat
  have hrest : ((m.streams.delete st.id).entries.map ManagedStream.held).sum ≤ (m.streams.entries.map ManagedStream.held).sum :=
    streams_sum_le List.filter_sublist
  rw [List.map_cons, List.sum_cons] at hsum
  rw [Manager.held, Manager.held, insertStream, setStream_streams, hsum]
  show _ + m.pendingPushContinuation.entries.length + _ ≤ _
  omega

/-- A stream that leaves with its response delivers a part of what it held. -/
theorem settle (h : Paid octets m) (hget : m.streams.get st.id = some st) : Paid octets (m.maybeResolveResponse st) := by
  have hpushes := ((Evolves.refl m : Evolves .quiet m m).maybeResolveResponse st).pushes (by decide)
  rcases maybeResolveResponse_cases m st with hsame | ⟨resolve, -, hstreams, heffects⟩
  · rwa [hsame]
  · have hdelivered := delivered_of_effects heffects
    rw [settlement_delivered] at hdelivered
    constructor
    · have hsum := ((Table.perm_cons_delete hget).map ManagedStream.held).sum_nat
      have hresponse := st.response_size
      have hbalance := h.balance
      rw [List.map_cons, List.sum_cons] at hsum
      rw [Manager.held] at hbalance
      rw [Manager.held, hstreams, hpushes, hdelivered, List.map_append, List.sum_append, List.map_singleton, List.sum_singleton]
      omega
    · rw [hstreams]
      exact fun w hw => h.streams w (Table.mem_delete.mp hw).1
    · rw [hdelivered]
      exact List.forall_mem_append.mpr ⟨h.delivered, List.forall_mem_singleton.mpr (h.streams st (Table.mem_of_get hget))⟩

theorem rejected (h : Paid octets m) (st : ManagedStream) (err : JsError) : Paid octets (m.rejectStream st err) := by
  refine h.fewer ?_ (((Evolves.refl m : Evolves .quiet m m).rejectStream st err).pushes (by decide)) (m.rejectStream_delivered st err)
  rw [rejectStream_streams]
  exact List.filter_sublist

theorem sendMove (h : Paid octets m) (hmove : SendMove m m') : Paid octets m' := by
  cases hmove with
  | limited => exact h.fewer (List.Sublist.refl _) rfl rfl
  | credited st size hget => exact h.rewritten hget rfl rfl rfl
  | sent hchunk =>
      cases hchunk with
      | chunk st chunkLen isLast hget =>
          let sent : Manager := { m.sendDataFrame st.id (st.sendQueue.take chunkLen) isLast with
            connectionSendWindow := m.connectionSendWindow - chunkLen }
          have hsent : Paid octets sent := h.fewer (List.Sublist.refl _) rfl (m.perform_delivered rfl)
          have hself : sent.streams.get st.id = some st := hget
          exact hsent.rewritten hself rfl rfl rfl

theorem sendMoves (h : Paid octets m) (hmoves : ReflTransGen SendMove m m') : Paid octets m' := by
  induction hmoves with
  | refl => exact h
  | tail _ hmove ih => exact ih.sendMove hmove

/-! ### The handlers -/

theorem settled (h : Paid octets m) {more : Nat} (hget : m.streams.get st.id = some st) (hid : st'.id = st.id)
    (hheld : st'.held ≤ st.held + more) (hfields : HeaderMap.Within (octets + more) st'.responseHeaders) :
    Paid (octets + more) ((m.setStream st').maybeResolveResponse st') :=
  (h.written hget hid hheld hfields).settle (Table.get_set_self m.streams st')

theorem data (h : Paid octets m) (frame : DataFrame) : Paid (octets + frame.payload.length) (m.handleData frame) := by
  have hpushes := (m.handleData_evolves frame).pushes (by decide)
  cases hget : m.streams.get frame.streamId with
  | none =>
      rw [handleData, hget]
      exact h.mono (Nat.le_add_right _ _)
  | some st =>
      obtain ⟨m₁, haccounted, hrun⟩ := handleData_eq hget
      have hself : m₁.streams.get st.id = some st := by rw [haccounted.streams, Table.get_of_mem (Table.mem_of_get hget)]
      have hsame := afterData_eq st frame
      have hid : (afterData st frame).id = st.id := by rw [hsame]
      have hfields : HeaderMap.Within (octets + frame.payload.length) (afterData st frame).responseHeaders := by
        rw [hsame]
        exact (h.streams st (Table.mem_of_get hget)).mono (Nat.le_add_right _ _)
      have haside : m₁.pendingPushContinuation = m.pendingPushContinuation → Paid octets m₁ := fun hpushes =>
        h.fewer (by rw [haccounted.streams]) hpushes haccounted.credits.delivered
      rw [hrun] at hpushes ⊢
      split at hpushes
      · rename_i hlast
        rw [if_pos hlast]
        let ended : ManagedStream := { afterData st frame with endStreamSeen := true }
        have hsettles := ((Evolves.refl (m₁.setStream ended.transitionOnEndStream) : Evolves .quiet _ _).maybeResolveResponse
          ended.transitionOnEndStream).pushes (by decide)
        have hbefore := haside (hsettles.symm.trans hpushes)
        refine hbefore.settled hself ((ManagedStream.transitionOnEndStream_id ended).trans hid) ?_ ?_
        · exact (ManagedStream.transitionOnEndStream_held ended).trans_le (afterData_held st frame)
        · rw [ManagedStream.transitionOnEndStream_responseHeaders]
          exact hfields
      · rename_i hlast
        rw [if_neg hlast]
        exact (haside hpushes).written hself hid (afterData_held st frame) hfields

theorem headers (h : Paid octets m) (frame : HeadersFrame) : Paid (octets + frame.payload.length) (m.handleHeaders frame).1 := by
  rw [handleHeaders]
  split
  · exact h.mono (Nat.le_add_right _ _)
  · rename_i st hget
    have hself : m.streams.get st.id = some st := Table.get_of_mem (Table.mem_of_get hget)
    have hfields : HeaderMap.Within (octets + frame.payload.length) st.responseHeaders :=
      (h.streams st (Table.mem_of_get hget)).mono (Nat.le_add_right _ _)
    have hroom := Nat.add_le_add_right (h.stream_le hself) frame.payload.length
    dsimp only
    split
    · exact h.written hself rfl (ManagedStream.pushHeaderBytes_held st frame.payload).le hfields
    · split
      · rename_i st' e hdecode
        obtain ⟨hheld, hwithin⟩ := ManagedStream.collected_held hfields hroom hdecode
        exact h.written hself (kept_of_decoded hdecode).1 hheld hwithin
      · rename_i st' hdecode
        obtain ⟨hheld, hwithin⟩ := ManagedStream.collected_held hfields hroom hdecode
        have hid : st'.promoteReserved.id = st.id := (ManagedStream.promoteReserved_id st').trans (kept_of_decoded hdecode).1
        have hpromoted : HeaderMap.Within (octets + frame.payload.length) st'.promoteReserved.responseHeaders := by
          rw [ManagedStream.promoteReserved_responseHeaders]
          exact hwithin
        have hheld' : st'.promoteReserved.held ≤ st.held + frame.payload.length :=
          (ManagedStream.promoteReserved_held st').trans_le hheld
        split
        · let ended : ManagedStream := { st'.promoteReserved with endStreamSeen := true }
          refine h.settled hself ((ManagedStream.transitionOnEndStream_id ended).trans hid) ?_ ?_
          · exact (ManagedStream.transitionOnEndStream_held ended).trans_le hheld'
          · rw [ManagedStream.transitionOnEndStream_responseHeaders]
            exact hpromoted
        · exact h.settled hself hid hheld' hpromoted

/-- Two of the four octets of a promised id pay for the stream and for the block that is to be continued. -/
theorem pushPromise (h : Paid octets m) (frame : PushPromiseFrame) :
    Paid (octets + (4 + frame.payload.length)) (m.handlePushPromise frame).1 := by
  have hnew : (newPushStream frame.promisedStreamId).held = 1 := rfl
  have hfields : HeaderMap.Within (octets + (1 + frame.payload.length)) (newPushStream frame.promisedStreamId).responseHeaders :=
    fun _ hmem => absurd hmem List.not_mem_nil
  have hroom : (newPushStream frame.promisedStreamId).held + frame.payload.length ≤ octets + (1 + frame.payload.length) := by omega
  have hmore : octets + (1 + frame.payload.length) ≤ octets + (4 + frame.payload.length) := by omega
  rw [handlePushPromise]
  dsimp only
  split
  · split
    · rename_i st e hdecode
      obtain ⟨hheld, hwithin⟩ := ManagedStream.collected_held hfields hroom hdecode
      exact (h.inserted (hheld.trans_eq (by rw [hnew])) hwithin).mono hmore
    · rename_i st hdecode
      obtain ⟨hheld, hwithin⟩ := ManagedStream.collected_held hfields hroom hdecode
      exact ((h.inserted (hheld.trans_eq (by rw [hnew])) hwithin).mono hmore).perform rfl
  · let promised := (newPushStream frame.promisedStreamId).pushHeaderBytes frame.payload
    have hheld : promised.held ≤ 1 + frame.payload.length :=
      (ManagedStream.pushHeaderBytes_held (newPushStream frame.promisedStreamId) frame.payload).le
    have hinserted : Paid (octets + (1 + frame.payload.length)) (m.insertStream promised) := h.inserted hheld hfields
    have hpending := m.pendingPushContinuation.length_set_le (frame.streamId, frame.promisedStreamId)
    refine hinserted.keeps hmore ?_ (fun st hst => (hinserted.streams st hst).mono hmore) rfl
    show ((m.insertStream promised).streams.entries.map ManagedStream.held).sum +
        (m.pendingPushContinuation.set (frame.streamId, frame.promisedStreamId)).entries.length + _ ≤
      ((m.insertStream promised).streams.entries.map ManagedStream.held).sum + m.pendingPushContinuation.entries.length + _
    omega

theorem cleared (h : Paid octets m) (streamId : StreamId) (promisedId : Option StreamId) :
    Paid octets (m.clearPushContinuation streamId promisedId) := by
  rw [clearPushContinuation]
  split
  · have hfewer : (m.pendingPushContinuation.delete streamId).entries.length ≤ m.pendingPushContinuation.entries.length :=
      List.length_filter_le _ _
    refine h.keeps (Nat.le_refl octets) ?_ h.streams rfl
    rw [Manager.held, Manager.held]
    dsimp only
    omega
  · exact h

theorem continuation (h : Paid octets m) (frame : ContinuationFrame) :
    Paid (octets + frame.payload.length) (m.handleContinuation frame).1 := by
  rw [handleContinuation]
  dsimp only
  split
  · exact h.mono (Nat.le_add_right _ _)
  · rename_i st hget
    have hself : m.streams.get st.id = some st := Table.get_of_mem (Table.mem_of_get hget)
    have hfields : HeaderMap.Within (octets + frame.payload.length) st.responseHeaders :=
      (h.streams st (Table.mem_of_get hget)).mono (Nat.le_add_right _ _)
    have hroom := Nat.add_le_add_right (h.stream_le hself) frame.payload.length
    split
    · exact h.written hself rfl (ManagedStream.pushHeaderBytes_held st frame.payload).le hfields
    · let m₁ := m.clearPushContinuation frame.streamId ((m.pendingPushContinuation.get frame.streamId).map Prod.snd)
      have hcleared : Paid octets m₁ := h.cleared _ _
      have hstreams : m₁.streams = m.streams := clearPushContinuation_streams m _ _
      rw [← hstreams] at hself
      split
      · rename_i st' e hdecode
        obtain ⟨hheld, hwithin⟩ := ManagedStream.collected_held hfields hroom hdecode
        exact hcleared.written hself (kept_of_decoded hdecode).1 hheld hwithin
      · rename_i st' hdecode
        obtain ⟨hheld, hwithin⟩ := ManagedStream.collected_held hfields hroom hdecode
        have hwritten := hcleared.written hself (kept_of_decoded hdecode).1 hheld hwithin
        have hself' : (m₁.setStream st').streams.get st'.id = some st' := Table.get_set_self m₁.streams st'
        split
        · exact (hwritten.perform rfl).settle hself'
        · exact hwritten.settle hself'

/-- One operation adds what its frame carries at most. -/
theorem step (h : Paid octets m) (op : ManagerOp) : Paid (octets + op.carried) (m.step op) := by
  cases op with
  | openStream =>
      have hnew : Paid octets { m with nextStreamId := m.nextStreamId + 2 } := h.fewer (List.Sublist.refl _) rfl rfl
      exact hnew.inserted (Nat.le_refl 0) fun _ hmem => absurd hmem List.not_mem_nil
  | dispatch frame =>
      cases frame with
      | data frame => exact h.data frame
      | headers frame => exact h.headers frame
      | priority frame => exact h
      | rstStream frame =>
          rw [Manager.step, dispatch, handleRstStream]
          split
          · exact h
          · exact h.rejected _ _
      | settings frame =>
          rw [Manager.step, dispatch, handleSettings]
          split
          · exact h.perform rfl
          · exact (h.sendMoves (applyRemoteSettings_moves m frame.settings)).perform rfl
      | pushPromise frame => exact h.pushPromise frame
      | ping frame =>
          rw [Manager.step, dispatch, handlePing]
          split
          · exact h.perform rfl
          · exact h.perform rfl
      | goaway frame =>
          refine forEachStream_induction (h.perform rfl) fun m' st hpaid hget => ?_
          split
          · exact hpaid.rejected _ _
          · exact hpaid
      | windowUpdate frame => exact h.sendMoves (handleWindowUpdate_moves m frame)
      | continuation frame => exact h.continuation frame
  | sendData streamId data endStream =>
      cases hget : m.streams.get streamId with
      | none =>
          simp only [Manager.step, sendData, hget]
          exact h
      | some st =>
          have hself : m.streams.get st.id = some st := Table.get_of_mem (Table.mem_of_get hget)
          have hqueued : Paid octets (m.setStream (st.written data endStream)) := h.rewritten hself rfl rfl rfl
          rw [Manager.step, sendData_eq hget]
          exact hqueued.sendMoves (moves_of_sends (drainSendQueue_sends (Table.get_set_self _ _)))
  | applyWindowUpdate streamId increment => exact h.sendMoves (handleWindowUpdate_moves m _)
  | expectResponse streamId resolve reject =>
      simp only [Manager.step, expectResponse]
      split
      · exact h.perform rfl
      · rename_i st hget
        exact h.rewritten (Table.get_of_mem (Table.mem_of_get hget)) rfl rfl rfl
  | abortAll error =>
      rw [Manager.step, abortAll_eq]
      exact forEachStream_induction h fun m' st hpaid hget => hpaid.rejected _ _

theorem steps (h : Paid octets m) (ops : List ManagerOp) : Paid (octets + (ops.map ManagerOp.carried).sum) (m.steps ops) := by
  induction ops generalizing m octets with
  | nil => exact h
  | cons op ops ih =>
      rw [List.map_cons, List.sum_cons, ← Nat.add_assoc]
      exact ih (h.step op)

end Paid

end Manager

end BrowsercoreHttp2
