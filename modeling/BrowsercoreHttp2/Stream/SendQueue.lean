import BrowsercoreHttp2.Library.SendBuffer
import BrowsercoreHttp2.Stream.FlowControl

/-!
# Send queues

A stream's send queue with the DATA frames that went out on it is a send buffer: `sendData` writes to it,
draining sends chunks of it, and END_STREAM is its mark. No other operation touches the queue while the
stream is in the table.
-/

namespace BrowsercoreHttp2

open Relation ManagedStream

/-- The payload of a DATA frame on a stream, and whether it carries END_STREAM. -/
def Effect.chunkOn (id : StreamId) : Effect → Option (Bytes × Bool)
  | .sendFrame (.data frame) => if frame.streamId = id then some (frame.payload, frame.flags &&& 0x1 ≠ 0) else none
  | _ => none

def chunksOn (id : StreamId) (effects : List Effect) : List (Bytes × Bool) := effects.filterMap (Effect.chunkOn id)

/-- What an operation hands in for a stream. -/
def ManagerOp.dataFor (id : StreamId) : ManagerOp → Bytes
  | .sendData streamId data _ => if streamId = id then data else []
  | _ => []

theorem chunksOn_append (id : StreamId) (effects effects' : List Effect) :
    chunksOn id (effects ++ effects') = chunksOn id effects ++ chunksOn id effects' := List.filterMap_append

theorem chunksOn_of_allowed {scope : Scope} {new : List Effect} (id : StreamId)
    (h : ∀ effect ∈ new, effect.allowedIn scope = true) (hscope : scope ≠ .sends) : chunksOn id new = [] := by
  refine List.filterMap_eq_nil_iff.mpr fun effect hmem => ?_
  rw [Effect.chunkOn.eq_def]
  split
  · exact absurd (of_decide_eq_true (h _ hmem)) hscope
  · rfl

/-- The stream once a piece of data has been handed in. -/
def ManagedStream.written (st : ManagedStream) (data : Bytes) (endStream : Bool) : ManagedStream :=
  { st with sendQueue := st.sendQueue ++ data, sendQueueEndStream := st.sendQueueEndStream || endStream }

namespace Manager

/-- The queue and the mark of a stream, nothing for one that is gone. -/
def queueOf (m : Manager) (id : StreamId) : Bytes × Bool := (m.streams.get id).elim ([], false) ManagedStream.queue

theorem queueOf_of_get {m : Manager} {st : ManagedStream} {id : StreamId} (h : m.streams.get id = some st) :
    m.queueOf id = st.queue := by
  rw [queueOf, h]
  rfl

theorem queueOf_of_none {m : Manager} {id : StreamId} (h : m.streams.get id = none) : m.queueOf id = ([], false) := by
  rw [queueOf, h]
  rfl

theorem queueOf_setStream {m : Manager} {st : ManagedStream} (st' : ManagedStream) (hget : m.streams.get st'.id = some st)
    (hqueue : st'.queue = st.queue) (id : StreamId) : (m.setStream st').queueOf id = m.queueOf id := by
  by_cases hid : st'.id = id
  · subst hid
    rw [queueOf_of_get hget, queueOf_of_get (Table.get_set_self m.streams st'), hqueue]
  · rw [queueOf, queueOf, setStream_streams, Table.get_set_ne _ hid]

/-! ### The buffer of a stream -/

/-- The buffer is the stream's queue, and what went out under its id after the effects `base`. -/
structure Tracks (base : List Effect) (id : StreamId) (m : Manager) (b : SendBuffer UInt8) : Prop where
  sent : ∃ new, m.effects = base ++ new ∧ chunksOn id new = b.sent
  queue : m.queueOf id = (b.queue, b.ended)

variable {base : List Effect} {id : StreamId} {m m' m'' : Manager} {b b' : SendBuffer UInt8}

theorem Tracks.sent_append (h : Tracks base id m b) {new : List Effect} (heffects : m'.effects = m.effects ++ new)
    (hsilent : chunksOn id new = []) : ∃ new, m'.effects = base ++ new ∧ chunksOn id new = b.sent := by
  obtain ⟨old, hold, hsent⟩ := h.sent
  exact ⟨old ++ new, by rw [heffects, hold, List.append_assoc], by rw [chunksOn_append, hsent, hsilent, List.append_nil]⟩

theorem Tracks.congr (h : Tracks base id m b) {new : List Effect} (heffects : m'.effects = m.effects ++ new)
    (hsilent : chunksOn id new = []) (hqueue : m'.queueOf id = m.queueOf id) : Tracks base id m' b :=
  ⟨h.sent_append heffects hsilent, hqueue.trans h.queue⟩

/-- As far as one stream's buffer goes, `m'` comes from `m` by sending chunks. -/
def Carries (id : StreamId) (m m' : Manager) : Prop :=
  ∀ base b, Tracks base id m b → ∃ b', b.Sends b' ∧ Tracks base id m' b'

theorem Carries.refl (id : StreamId) (m : Manager) : Carries id m m := fun _ b h => ⟨b, .refl, h⟩

theorem Carries.trans (h : Carries id m m') (h' : Carries id m' m'') : Carries id m m'' := by
  intro base b htracks
  obtain ⟨b', hsends, htracks'⟩ := h base b htracks
  obtain ⟨b'', hsends', htracks''⟩ := h' base b' htracks'
  exact ⟨b'', hsends.trans hsends', htracks''⟩

theorem Carries.of_same (heffects : m'.effects = m.effects) (hqueue : m'.queueOf id = m.queueOf id) : Carries id m m' := by
  intro base b h
  exact ⟨b, .refl, h.congr (heffects.trans (List.append_nil _).symm) rfl hqueue⟩

theorem SendsChunk.carries (h : SendsChunk m m') (id : StreamId) : Carries id m m' := by
  cases h with
  | chunk st chunkLen isLast hget hpos hqueue _ _ _ hlast =>
      intro base b htracks
      obtain ⟨new, hnew, hsent⟩ := htracks.sent
      have heffects : (m.afterChunk st chunkLen isLast).effects =
          base ++ (new ++ [.sendFrame (.data ⟨if isLast then 0x1 else 0, st.id, st.sendQueue.take chunkLen⟩)]) := by
        rw [← List.append_assoc, ← hnew]
        rfl
      by_cases hid : st.id = id
      · subst hid
        have hbuffer : (st.sendQueue, st.sendQueueEndStream) = (b.queue, b.ended) :=
          (queueOf_of_get hget).symm.trans htracks.queue
        obtain ⟨hitems, hended⟩ := Prod.mk.inj hbuffer
        refine ⟨b.chunk chunkLen, .single (.chunk b chunkLen hpos (hitems ▸ hqueue)), ⟨_, heffects, ?_⟩, ?_⟩
        · rw [chunksOn_append, hsent, SendBuffer.chunk, ← hitems, ← hended, ← hlast]
          cases isLast <;> simp [chunksOn, Effect.chunkOn]
        · rw [queueOf_of_get (Table.get_set_self _ _), SendBuffer.chunk, ← hitems, ← hended]
          rfl
      · refine ⟨b, .refl, ⟨_, heffects, ?_⟩, ?_⟩
        · rw [chunksOn_append, hsent]
          simp [chunksOn, Effect.chunkOn, hid]
        · rw [← htracks.queue, queueOf, queueOf]
          exact congrArg (Option.elim · _ _) (Table.get_set_ne _ hid)

theorem sends_carries (h : ReflTransGen SendsChunk m m') (id : StreamId) : Carries id m m' := by
  induction h with
  | refl => exact .refl id m
  | tail _ hchunk ih => exact ih.trans (hchunk.carries id)

/-! ### Operations that send -/

theorem SendMove.carries (h : SendMove m m') (id : StreamId) : Carries id m m' := by
  cases h with
  | limited => exact .of_same rfl rfl
  | credited st size hget =>
      let st' : ManagedStream := { st with localWindow := { st.localWindow with size } }
      exact .of_same rfl (queueOf_setStream st' hget rfl id)
  | sent hchunk => exact hchunk.carries id

theorem moves_carries (h : ReflTransGen SendMove m m') (id : StreamId) : Carries id m m' := by
  induction h with
  | refl => exact .refl id m
  | tail _ hmove ih => exact ih.trans (hmove.carries id)

theorem handleSettings_carries (m : Manager) (frame : SettingsFrame) (id : StreamId) :
    Carries id m (m.handleSettings frame) := by
  have hperform : ∀ (m : Manager) (effect : Effect), effect.chunkOn id = none → Carries id m (m.perform effect) := by
    intro m effect hquiet base b h
    exact ⟨b, .refl, h.congr rfl (by rw [chunksOn, List.filterMap_cons_none hquiet, List.filterMap_nil]) rfl⟩
  rw [handleSettings]
  split
  · exact hperform m _ rfl
  · exact (moves_carries (applyRemoteSettings_moves m frame.settings) id).trans (hperform _ _ rfl)

/-! ### One operation -/

/-- The buffer once the data of an operation is written to it. A call for a stream that is gone does nothing. -/
def wrote (m : Manager) (id : StreamId) (b : SendBuffer UInt8) : ManagerOp → SendBuffer UInt8
  | .sendData streamId data endStream => if streamId = id ∧ (m.streams.get id).isSome then b.write data endStream else b
  | _ => b

theorem sendData_eq {streamId : StreamId} {st : ManagedStream} (hget : m.streams.get streamId = some st) (data : Bytes)
    (endStream : Bool) :
    m.sendData streamId data endStream = (m.setStream (st.written data endStream)).drainSendQueue (st.written data endStream) := by
  -- an empty piece leaves the queue as it is, which is what appending it does
  have hqueued : (if 0 < data.length then { st with sendQueue := st.sendQueue ++ data } else st) =
      { st with sendQueue := st.sendQueue ++ data } := by
    split
    · rfl
    · rename_i hempty
      rw [List.length_eq_zero_iff.mp (Nat.eq_zero_of_not_pos hempty), List.append_nil]
  have hmarked : (if endStream then { { st with sendQueue := st.sendQueue ++ data } with sendQueueEndStream := true }
      else { st with sendQueue := st.sendQueue ++ data }) = st.written data endStream := by
    cases endStream
    · rw [if_neg (by decide), ManagedStream.written, Bool.or_false]
    · rw [if_pos rfl, ManagedStream.written, Bool.or_true]
  rw [sendData, hget]
  dsimp only
  rw [hqueued, hmarked]

theorem sendData_tracks (h : Tracks base id m b) (streamId : StreamId) (data : Bytes) (endStream : Bool) :
    ∃ b', (m.wrote id b (.sendData streamId data endStream)).Sends b' ∧ Tracks base id (m.sendData streamId data endStream) b' := by
  cases hget : m.streams.get streamId with
  | none =>
      have habsent : ¬ (streamId = id ∧ (m.streams.get id).isSome) := by
        rintro ⟨rfl, hsome⟩
        rw [hget] at hsome
        exact absurd hsome (by decide)
      rw [wrote, if_neg habsent, sendData, hget]
      exact ⟨b, .refl, h⟩
  | some st =>
      have hid := Table.key_of_get hget
      have hwritten : Tracks base id (m.setStream (st.written data endStream)) (m.wrote id b (.sendData streamId data endStream)) := by
        rw [wrote]
        by_cases hsame : streamId = id
        · subst hsame
          have hbuffer : (st.sendQueue, st.sendQueueEndStream) = (b.queue, b.ended) :=
            (queueOf_of_get hget).symm.trans h.queue
          obtain ⟨hitems, hended⟩ := Prod.mk.inj hbuffer
          have hset : (m.setStream (st.written data endStream)).streams.get streamId = some (st.written data endStream) := by
            rw [← hid]
            exact Table.get_set_self _ _
          rw [if_pos ⟨rfl, by rw [hget]; rfl⟩]
          refine ⟨h.sent, ?_⟩
          rw [queueOf_of_get hset, SendBuffer.write, ← hitems, ← hended]
          rfl
        · rw [if_neg fun hboth => hsame hboth.1]
          refine ⟨h.sent, ?_⟩
          rw [← h.queue, queueOf, queueOf]
          exact congrArg (Option.elim · _ _) (Table.get_set_ne _ fun heq => hsame (hid.symm.trans heq))
      rw [sendData_eq hget]
      exact sends_carries (drainSendQueue_sends (Table.get_set_self _ _)) id base _ hwritten

theorem drainSendQueue_of_empty (m : Manager) {st : ManagedStream} (h : st.sendQueue = []) : m.drainSendQueue st = m := by
  rw [drainSendQueue, if_neg]
  rw [h]
  exact lt_irrefl 0

theorem sendData_nothing {st : ManagedStream} (hget : m.streams.get id = some st) (hqueue : st.sendQueue = []) :
    m.sendData id [] true = m.setStream (st.written [] true) := by
  have hwritten : (st.written [] true).sendQueue = [] := (List.append_nil _).trans hqueue
  rw [sendData_eq hget]
  exact drainSendQueue_of_empty _ hwritten

/-- A client stream is in the table under an id. -/
def HasClient (m : Manager) (id : StreamId) : Prop := ∃ st, m.streams.get id = some st ∧ st.isPushPromise = false

theorem hasClient_of_step {op : ManagerOp} (hopen : op = .openStream → m.nextStreamId ≠ id) (h : (m.step op).HasClient id) :
    m.HasClient id := by
  obtain ⟨st', hget, hclient⟩ := h
  rcases step_streams (Table.mem_of_get hget) with ⟨st, hst, hchanges⟩ | ⟨rfl, rfl⟩ | ⟨pushed, hchanges⟩
  · rw [hchanges.isPushPromise_eq] at hclient
    refine ⟨st, ?_, hclient⟩
    rw [← Table.key_of_get hget, hchanges.id_eq]
    exact Table.get_of_mem hst
  · exact absurd (Table.key_of_get hget) (hopen rfl)
  · rw [hchanges.isPushPromise_eq] at hclient
    exact absurd hclient (by simp [newPushStream, ManagedStream.create])

/-- An operation that neither sends nor opens keeps the queue or drops the stream. -/
theorem step_quiet (h : Tracks base id m b) {op : ManagerOp} (hscope : op.scope ≠ .sends) (hnot : op ≠ .openStream)
    (hpush : ∀ frame, op ≠ .dispatch (.pushPromise frame)) :
    Tracks base id (m.step op) b ∨ (Tracks base id (m.step op) b.discard ∧ ¬ (m.step op).HasClient id) := by
  have hqueues : op.scope ≠ .queues := by
    cases op with
    | dispatch frame => cases frame <;> simp [ManagerOp.scope]
    | _ => simp [ManagerOp.scope]
  have hevolves := step_evolves (m := m) hnot hpush
  obtain ⟨new, hnew, hallowed⟩ := hevolves.effects
  have hsilent := chunksOn_of_allowed id hallowed hscope
  cases hget : (m.step op).streams.get id with
  | none =>
      refine .inr ⟨⟨h.sent_append hnew hsilent, queueOf_of_none hget⟩, ?_⟩
      · rintro ⟨st, hst, -⟩
        rw [hget] at hst
        exact absurd hst (by simp)
  | some st' =>
      obtain ⟨st, hst, hchanges⟩ := hevolves.streams st' (Table.mem_of_get hget)
      have hbefore : m.streams.get id = some st := by
        rw [← Table.key_of_get hget, hchanges.id_eq]
        exact Table.get_of_mem hst
      refine .inl (h.congr hnew hsilent ?_)
      rw [queueOf_of_get hget, queueOf_of_get hbefore, hchanges.queue_eq hqueues hscope]

theorem handlePushPromise_tracks (h : Tracks base id m b) (frame : PushPromiseFrame) :
    Tracks base id (m.handlePushPromise frame).1 b ∨
      (Tracks base id (m.handlePushPromise frame).1 b.discard ∧ ¬ (m.handlePushPromise frame).1.HasClient id) := by
  obtain ⟨st, hchanges, hstreams⟩ := handlePushPromise_streams m frame
  obtain ⟨new, hnew, hallowed⟩ := handlePushPromise_effects m frame
  have hsilent := chunksOn_of_allowed id hallowed (by decide)
  have hget : (m.handlePushPromise frame).1.streams.get id = if st.id = id then some st else m.streams.get id := by
    rw [hstreams, Table.get_set]
  split at hget
  · refine .inr ⟨⟨h.sent_append hnew hsilent, ?_⟩, ?_⟩
    · exact (queueOf_of_get hget).trans (hchanges.queue_eq (by decide) (by decide))
    · rintro ⟨st', hget', hclient⟩
      obtain rfl := Option.some.inj (hget.symm.trans hget')
      rw [hchanges.isPushPromise_eq] at hclient
      exact absurd hclient (by simp [newPushStream, ManagedStream.create])
  · exact .inl (h.congr hnew hsilent (congrArg (Option.elim · _ _) hget))

/-- One operation writes its data to a stream's buffer and sends chunks of it, or the client stream is gone
and its queue with it. -/
theorem step_tracks (h : Tracks base id m b) {op : ManagerOp} (hopen : op = .openStream → m.nextStreamId ≠ id) :
    (∃ b', (m.wrote id b op).Sends b' ∧ Tracks base id (m.step op) b') ∨
      (Tracks base id (m.step op) b.discard ∧ ¬ (m.step op).HasClient id) := by
  have hunwritten : ∀ op, m.wrote id b op = b → Tracks base id (m.step op) b ∨
      (Tracks base id (m.step op) b.discard ∧ ¬ (m.step op).HasClient id) →
      (∃ b', (m.wrote id b op).Sends b' ∧ Tracks base id (m.step op) b') ∨
      (Tracks base id (m.step op) b.discard ∧ ¬ (m.step op).HasClient id) := by
    intro op hwrote hkept
    rw [hwrote]
    exact hkept.imp_left fun htracks => ⟨b, .refl, htracks⟩
  cases op with
  | openStream =>
      refine .inl ⟨b, .refl, h.congr (List.append_nil _).symm rfl ?_⟩
      rw [queueOf, queueOf]
      exact congrArg (Option.elim · _ _) (Table.get_set_ne _ (hopen rfl))
  | dispatch frame =>
      cases frame with
      | settings frame => exact .inl (handleSettings_carries m frame id base b h)
      | windowUpdate frame => exact .inl (moves_carries (handleWindowUpdate_moves m frame) id base b h)
      | pushPromise frame => exact hunwritten _ rfl (handlePushPromise_tracks h frame)
      | _ => exact hunwritten _ rfl (step_quiet h (by simp [ManagerOp.scope]) (by simp) (by simp))
  | sendData streamId data endStream => exact .inl (sendData_tracks h streamId data endStream)
  | applyWindowUpdate streamId increment => exact .inl (moves_carries (handleWindowUpdate_moves m _) id base b h)
  | expectResponse streamId resolve reject =>
      exact hunwritten _ rfl (step_quiet h (by simp [ManagerOp.scope]) (by simp) (by simp))
  | abortAll error => exact hunwritten _ rfl (step_quiet h (by simp [ManagerOp.scope]) (by simp) (by simp))

/-! ### Whole runs -/

/-- What holds of a stream's buffer through a run: whatever writing and sending keep, and giving up the queue
with the client stream. `P` also sees the operations so far. -/
theorem steps_tracks {P : List ManagerOp → Manager → SendBuffer UInt8 → Prop} (hid : id < m.nextStreamId)
    (h : Tracks base id m b) (hstart : P [] m b) (ops : List ManagerOp)
    (hsends : ∀ pre op m b b', op ∈ ops → ((m.step op).HasClient id → m.HasClient id) → P pre m b →
      (m.wrote id b op).Sends b' → P (pre ++ [op]) (m.step op) b')
    (hgone : ∀ pre op m b, op ∈ ops → ¬ (m.step op).HasClient id → P pre m b → P (pre ++ [op]) (m.step op) b.discard) :
    ∃ b', Tracks base id (m.steps ops) b' ∧ P ops (m.steps ops) b' := by
  induction ops using List.reverseRecOn with
  | nil => exact ⟨b, h, hstart⟩
  | append_singleton ops op ih =>
      obtain ⟨b₁, h₁, hP⟩ := ih (fun pre op m b b' hmem => hsends pre op m b b' (List.mem_append_left _ hmem))
        (fun pre op m b hmem => hgone pre op m b (List.mem_append_left _ hmem))
      have hmem : op ∈ ops ++ [op] := List.mem_append_right ops List.mem_cons_self
      have hopen : op = .openStream → (m.steps ops).nextStreamId ≠ id := fun _ =>
        (hid.trans_le (steps_nextStreamId_le m ops)).ne'
      rw [steps_concat]
      rcases step_tracks h₁ hopen with ⟨b₂, hsent, h₂⟩ | ⟨h₂, hnone⟩
      · exact ⟨b₂, h₂, hsends ops op _ b₁ b₂ hmem (hasClient_of_step hopen) hP hsent⟩
      · exact ⟨b₁.discard, h₂, hgone ops op _ b₁ hmem hnone hP⟩

theorem wrote_items (hclient : m.HasClient id) (b : SendBuffer UInt8) (op : ManagerOp) :
    (m.wrote id b op).items = b.items ++ op.dataFor id := by
  obtain ⟨st, hget, -⟩ := hclient
  cases op with
  | sendData streamId data endStream =>
      rw [wrote, hget, ManagerOp.dataFor]
      by_cases hid : streamId = id
      · rw [if_pos ⟨hid, rfl⟩, if_pos hid, SendBuffer.items_write]
      · rw [if_neg fun hboth => hid hboth.1, if_neg hid, List.append_nil]
  | _ => exact (List.append_nil _).symm

theorem wrote_eq (m : Manager) (b : SendBuffer UInt8) {op : ManagerOp} (h : ∀ data endStream, op ≠ .sendData id data endStream) :
    m.wrote id b op = b := by
  cases op with
  | sendData streamId data endStream =>
      rw [wrote, if_neg]
      rintro ⟨rfl, -⟩
      exact h data endStream rfl
  | _ => rfl

theorem wrote_unended (m : Manager) (hb : b.Unended) {op : ManagerOp} (h : ∀ data, op ≠ .sendData id data true) :
    (m.wrote id b op).Unended := by
  cases op with
  | sendData streamId data endStream =>
      rw [wrote]
      split
      · rename_i hboth
        obtain rfl := hboth.1
        cases endStream with
        | true => exact absurd rfl (h data)
        | false => exact hb.write data
      · exact hb
  | _ => exact hb

/-- The final call closes the buffer. If it has data or finds some queued on the client stream, the buffer is ending. -/
theorem sendData_final (h : Tracks base id m b) (hb : b.Unended) {data : Bytes}
    (hdata : ∀ st, m.streams.get id = some st → st.isPushPromise = false → data ≠ [] ∨ st.sendQueue ≠ []) :
    ∃ b', Tracks base id (m.step (.sendData id data true)) b' ∧ b'.Closed ∧
      ((m.step (.sendData id data true)).HasClient id → b'.Ending) := by
  have hopen : ManagerOp.sendData id data true = .openStream → m.nextStreamId ≠ id := by simp
  rcases step_tracks h hopen with ⟨b', hsends, htracks⟩ | ⟨htracks, hnone⟩
  · refine ⟨b', htracks, hsends.closed ?_, fun hafter => hsends.ending ?_⟩
    · rw [wrote]
      split
      · exact hb.closed_write data true
      · exact hb.closed
    · obtain ⟨st, hget, hclient⟩ := hasClient_of_step hopen hafter
      have hqueue : (st.sendQueue, st.sendQueueEndStream) = (b.queue, b.ended) := (queueOf_of_get hget).symm.trans h.queue
      rw [wrote, if_pos ⟨rfl, by rw [hget]; rfl⟩]
      refine SendBuffer.ending_write b ?_
      rw [← (Prod.mk.inj hqueue).1]
      exact hdata st hget hclient
  · exact ⟨b.discard, htracks, hb.discard.closed, fun hafter => absurd hafter hnone⟩

end Manager

/-- What went out on the stream that `openStream` created after `before`. -/
def sentSince (before after : List ManagerOp) : List (Bytes × Bool) :=
  chunksOn (Manager.run before).nextStreamId
    ((Manager.run (before ++ .openStream :: after)).effects.drop (Manager.run before).effects.length)

section ClientStream

open Manager

variable (before : List ManagerOp)

theorem opened_tracks : Tracks (run before).effects (run before).nextStreamId ((run before).step .openStream) .empty where
  sent := ⟨[], (List.append_nil _).symm, rfl⟩
  queue := by
    have hget : ((run before).step .openStream).streams.get (run before).nextStreamId = some (run before).newClientStream :=
      Table.get_set_self _ _
    exact queueOf_of_get hget

theorem opened_id_lt : (run before).nextStreamId < ((run before).step .openStream).nextStreamId :=
  Nat.lt_add_of_pos_right (by decide)

theorem run_opened (after : List ManagerOp) :
    run (before ++ .openStream :: after) = ((run before).step .openStream).steps after :=
  run_append before (.openStream :: after)

variable {before}

theorem sentSince_of_tracks {after : List ManagerOp} {id : StreamId} {b : SendBuffer UInt8} (hid : id = (run before).nextStreamId)
    (h : Tracks (run before).effects id (run (before ++ .openStream :: after)) b) : sentSince before after = b.sent := by
  obtain ⟨new, hnew, hsent⟩ := h.sent
  rw [sentSince, hnew, List.drop_left, ← hid, hsent]

end ClientStream

/-- The buffer of a client stream since it was opened. -/
theorem opened_buffer (before after : List ManagerOp) {st : ManagedStream}
    (hget : (Manager.run (before ++ .openStream :: after)).streams.get (Manager.run before).nextStreamId = some st)
    (hclient : st.isPushPromise = false) :
    ((sentSince before after).map Prod.fst).flatten ++ st.sendQueue =
      after.flatMap (ManagerOp.dataFor (Manager.run before).nextStreamId) := by
  have hstart := opened_tracks before
  have hlt := opened_id_lt before
  generalize hid : (Manager.run before).nextStreamId = id at hget hstart hlt ⊢
  obtain ⟨b, htracks, hitems⟩ := Manager.steps_tracks
    (P := fun ops m b => m.HasClient id → b.items = ops.flatMap (ManagerOp.dataFor id)) hlt hstart (fun _ => rfl) after
    (by
      intro pre op m b b' _ hbefore hb hsends hafter
      rw [hsends.items_eq, Manager.wrote_items (hbefore hafter), hb (hbefore hafter), List.flatMap_append, List.flatMap_singleton])
    (fun _ _ _ _ _ hnone _ hafter => absurd hafter hnone)
  rw [← run_opened] at htracks hitems
  have hqueue : (st.sendQueue, st.sendQueueEndStream) = (b.queue, b.ended) := (Manager.queueOf_of_get hget).symm.trans htracks.queue
  rw [sentSince_of_tracks hid.symm htracks, (Prod.mk.inj hqueue).1]
  exact hitems ⟨st, hget, hclient⟩

/-- While a client stream is in the table, the octets of its DATA frames and its send queue are the octets
handed to `sendData` for it. -/
theorem sent_and_queued_octets (before after : List ManagerOp) (st : ManagedStream)
    (hget : (Manager.run (before ++ .openStream :: after)).streams.get (Manager.run before).nextStreamId = some st)
    (hclient : st.isPushPromise = false) :
    ((sentSince before after).map Prod.fst).flatten ++ st.sendQueue =
      after.flatMap (ManagerOp.dataFor (Manager.run before).nextStreamId) :=
  opened_buffer before after hget hclient

/-- A request body in two pieces, and a window of three octets. -/
def cutUpload : List ManagerOp :=
  [ .dispatch (.settings ⟨0, 0, false, SettingsMap.empty.set 0x4 3, none, false⟩), .sendData 1 [0x61, 0x62] false,
    .sendData 1 [0x63, 0x64] true ]

/-- The octet left over. -/
def cutStream : ManagedStream :=
  { Manager.create.newClientStream with localWindow := ⟨0, 65535⟩, sendQueue := [0x64], sendQueueEndStream := true }

theorem sent_and_queued_octets_cut :
    ((sentSince [] cutUpload).map Prod.fst).flatten ++ cutStream.sendQueue =
      cutUpload.flatMap (ManagerOp.dataFor (Manager.run []).nextStreamId) :=
  sent_and_queued_octets [] cutUpload cutStream (by decide +kernel) rfl

/-! ### END_STREAM -/

/-- END_STREAM goes out at most once and with the last DATA frame, and it is out once the client stream that
was opened after `before` has nothing queued. -/
structure EndStreamSent (before after : List ManagerOp) : Prop where
  last : SendBuffer.MarkedLast (sentSince before after)
  sent : ∀ st, (Manager.run (before ++ .openStream :: after)).streams.get (Manager.run before).nextStreamId = some st →
    st.isPushPromise = false → st.sendQueue = [] → ∃ chunk ∈ sentSince before after, chunk.2 = true

/-- Up to the final call nothing is marked. -/
theorem tracks_before_final (before pre : List ManagerOp)
    (hpre : ∀ data, .sendData (Manager.run before).nextStreamId data true ∉ pre) :
    ∃ b, Manager.Tracks (Manager.run before).effects (Manager.run before).nextStreamId
      (Manager.run (before ++ .openStream :: pre)) b ∧ b.Unended := by
  rw [run_opened]
  refine Manager.steps_tracks (P := fun _ _ b => b.Unended) (opened_id_lt before) (opened_tracks before)
    SendBuffer.unended_empty pre ?_ ?_
  · intro _ op m b b' hmem _ hb hsends
    refine hsends.unended (Manager.wrote_unended m hb fun data hop => ?_)
    exact hpre data (hop ▸ hmem)
  · exact fun _ _ _ _ _ _ hb => hb.discard

/-- END_STREAM is never lost exactly when the final call has data or finds some queued. The other calls and
operations come in any order. -/
theorem endStream_sent_iff (before pre : List ManagerOp) (data : Bytes)
    (hpre : ∀ data', .sendData (Manager.run before).nextStreamId data' true ∉ pre) :
    (∀ post, (∀ data' endStream, .sendData (Manager.run before).nextStreamId data' endStream ∉ post) →
        EndStreamSent before (pre ++ .sendData (Manager.run before).nextStreamId data true :: post)) ↔
      ∀ st, (Manager.run (before ++ .openStream :: pre)).streams.get (Manager.run before).nextStreamId = some st →
        st.isPushPromise = false → data ≠ [] ∨ st.sendQueue ≠ [] := by
  obtain ⟨b, htracks, hunended⟩ := tracks_before_final before pre hpre
  have hlt : (Manager.run before).nextStreamId < (Manager.run (before ++ .openStream :: pre)).nextStreamId := by
    rw [run_opened]
    exact (opened_id_lt before).trans_le (Manager.steps_nextStreamId_le _ pre)
  have hrun : ∀ op post, Manager.run (before ++ .openStream :: (pre ++ op :: post)) =
      ((Manager.run (before ++ .openStream :: pre)).step op).steps post := by
    intro op post
    rw [← List.cons_append, ← List.append_assoc, Manager.run_append]
    rfl
  generalize hid : (Manager.run before).nextStreamId = id at *
  constructor
  · intro hsent st hget hclient
    by_contra hnothing
    rw [not_or, not_not, not_not] at hnothing
    obtain ⟨rfl, hqueue⟩ := hnothing
    have hid' := Table.key_of_get hget
    -- nothing is queued, so setting the mark is all the call does
    have hmarked : (Manager.run (before ++ .openStream :: pre)).step (.sendData id [] true) =
        (Manager.run (before ++ .openStream :: pre)).setStream (st.written [] true) :=
      Manager.sendData_nothing hget hqueue
    have hsame : sentSince before (pre ++ [.sendData id [] true]) = b.sent := by
      obtain ⟨new, hnew, hchunks⟩ := htracks.sent
      rw [sentSince, hrun, Manager.steps, List.foldl_nil, hmarked, Manager.setStream_effects, hnew, List.drop_left, hid, hchunks]
    obtain ⟨chunk, hmem, hchunk⟩ := (hsent [] (fun _ _ => List.not_mem_nil)).sent (st.written [] true)
      (by
        rw [hrun, Manager.steps, List.foldl_nil, hmarked, hid, Manager.setStream_streams, Table.get_set]
        exact if_pos hid')
      hclient ((List.append_nil _).trans hqueue)
    rw [hsame] at hmem
    exact absurd (hchunk.symm.trans (hunended.unmarked chunk hmem)) (by decide)
  · intro hcondition post hpost
    have hlt' : id < ((Manager.run (before ++ .openStream :: pre)).step (.sendData id data true)).nextStreamId :=
      hlt.trans_le (Manager.steps_nextStreamId_le _ [.sendData id data true])
    -- the final call closes the buffer, and by the condition leaves it ending
    obtain ⟨b₁, htracks₁, hclosed₁, hending₁⟩ := Manager.sendData_final htracks hunended hcondition
    obtain ⟨b₂, htracks₂, hclosed₂, hending₂⟩ := Manager.steps_tracks
      (P := fun _ m b => b.Closed ∧ (m.HasClient id → b.Ending)) hlt' htracks₁ ⟨hclosed₁, hending₁⟩ post
      (by
        intro _ op m b b' hmem hbefore hb hsends
        rw [Manager.wrote_eq m b fun data' endStream hop => hpost data' endStream (hop ▸ hmem)] at hsends
        exact ⟨hsends.closed hb.1, fun hafter => hsends.ending (hb.2 (hbefore hafter))⟩)
      (fun _ _ _ _ _ hnone hb => ⟨hb.1.discard, fun hafter => absurd hafter hnone⟩)
    rw [← hrun] at htracks₂ hending₂
    have hsent := sentSince_of_tracks hid.symm htracks₂
    refine ⟨by rw [hsent]; exact hclosed₂.last, fun st hget hclient hempty => ?_⟩
    rw [hid] at hget
    have hqueue : (st.sendQueue, st.sendQueueEndStream) = (b₂.queue, b₂.ended) :=
      (Manager.queueOf_of_get hget).symm.trans htracks₂.queue
    rw [hsent]
    exact (hending₂ ⟨st, hget, hclient⟩).marked ((Prod.mk.inj hqueue).1 ▸ hempty)

/-- SETTINGS with INITIAL_WINDOW_SIZE 0. -/
def windowShut : ManagerOp := .dispatch (.settings ⟨0, 0, false, SettingsMap.empty.set 0x4 0, none, false⟩)

/-- A body that ends with its only octets, while the peer allows none. -/
theorem endStream_sent_iff_body :
    (∀ post, (∀ data' endStream, .sendData (Manager.run []).nextStreamId data' endStream ∉ post) →
        EndStreamSent [] ([windowShut] ++ .sendData (Manager.run []).nextStreamId [0x61] true :: post)) ↔
      ∀ st, (Manager.run ([] ++ .openStream :: [windowShut])).streams.get (Manager.run []).nextStreamId = some st →
        st.isPushPromise = false → [(0x61 : UInt8)] ≠ [] ∨ st.sendQueue ≠ [] :=
  endStream_sent_iff [] [windowShut] [0x61] (by simp [windowShut])

/-- A body that is ended by an empty piece once its octets are out is never ended for the peer. -/
theorem empty_end_lost : ¬ EndStreamSent [] [.sendData 1 [0x61] false, .sendData 1 [] true] := by
  intro hsent
  obtain ⟨chunk, hmem, hmarked⟩ := hsent.sent { Manager.create.newClientStream with
    localWindow := ⟨65534, 65535⟩, sendQueueEndStream := true } (by decide +kernel) rfl rfl
  have hall : sentSince [] [.sendData 1 [0x61] false, .sendData 1 [] true] = [([0x61], false)] := by decide +kernel
  rw [hall, List.mem_singleton] at hmem
  rw [hmem] at hmarked
  exact absurd hmarked (by decide)

/-! ### No queue stalls -/

namespace Manager

/-- Nothing is queued on a stream, or a window holds it back. -/
def Drained (m : Manager) (st : ManagedStream) : Prop :=
  st.sendQueue = [] ∨ m.connectionSendWindow ≤ 0 ∨ st.localWindow.size ≤ 0

def AllDrained (m : Manager) : Prop := ∀ st ∈ m.streams.entries, m.Drained st

variable {m m' : Manager} {st : ManagedStream}

/-- A chunk goes out on a stream that was not drained, so no drained stream is touched. -/
theorem SendsChunk.drained (h : SendsChunk m m') :
    ∀ w' ∈ m'.streams.entries, ∃ w ∈ m.streams.entries, w.id = w'.id ∧ (m.Drained w → m'.Drained w') := by
  cases h with
  | chunk st chunkLen isLast hget hpos hqueue _ hconnection hstream _ =>
      intro w' hw'
      rcases Table.mem_set hw' with rfl | ⟨hw', -⟩
      · refine ⟨st, Table.mem_of_get hget, rfl, fun hdrained => ?_⟩
        rcases hdrained with hempty | hshared | hown
        · rw [hempty, List.length_nil] at hqueue
          omega
        · omega
        · omega
      · refine ⟨w', hw', rfl, fun hdrained => ?_⟩
        rcases hdrained with hempty | hshared | hown
        · exact .inl hempty
        · omega
        · exact .inr (.inr hown)

theorem sends_drained (h : ReflTransGen SendsChunk m m') :
    ∀ w' ∈ m'.streams.entries, ∃ w ∈ m.streams.entries, w.id = w'.id ∧ (m.Drained w → m'.Drained w') := by
  induction h with
  | refl => exact fun w hw => ⟨w, hw, rfl, id⟩
  | tail _ hchunk ih =>
      intro w'' hw''
      obtain ⟨w', hw', hid', hkeeps'⟩ := hchunk.drained w'' hw''
      obtain ⟨w, hw, hid, hkeeps⟩ := ih w' hw'
      exact ⟨w, hw, hid.trans hid', hkeeps' ∘ hkeeps⟩

/-- The loop only ends when the queue is empty or a window is used up. -/
theorem drainSendQueue_drained (hget : m.streams.get st.id = some st) (hsize : 0 < m.maxFrameSize) :
    ∀ w ∈ (m.drainSendQueue st).streams.entries, w.id = st.id → (m.drainSendQueue st).Drained w := by
  have hself : ∀ {m : Manager} {st : ManagedStream}, m.streams.get st.id = some st → ∀ w ∈ m.streams.entries, w.id = st.id →
      w = st := fun hget w hw hid => Table.key_injOn _ hw (Table.mem_of_get hget) hid
  fun_induction drainSendQueue m st with
  | case1 m st hqueue hshared => exact fun _ _ _ => .inr (.inl hshared)
  | case2 m st hqueue hshared hown => exact fun w hw hid => .inr (.inr (hself hget w hw hid ▸ hown))
  | case3 m st hqueue hshared hown cap hcap => omega
  | case4 m st hqueue hshared hown cap hcap chunkLen isLast m₁ st₁ ih => exact ih (Table.get_set_self _ st₁) hsize
  | case5 m st hqueue =>
      intro w hw hid
      refine .inl ?_
      rw [hself hget w hw hid]
      exact List.length_eq_zero_iff.mp (Nat.eq_zero_of_not_pos hqueue)

theorem drainSendQueue_allDrained (hget : m.streams.get st.id = some st) (hsize : 0 < m.maxFrameSize)
    (hothers : ∀ w ∈ m.streams.entries, w.id ≠ st.id → m.Drained w) : (m.drainSendQueue st).AllDrained := by
  intro w' hw'
  by_cases hid : w'.id = st.id
  · exact drainSendQueue_drained hget hsize w' hw' hid
  · obtain ⟨w, hw, hsame, hkeeps⟩ := sends_drained (drainSendQueue_sends hget) w' hw'
    exact hkeeps (hothers w hw (hsame ▸ hid))

theorem forEachStream_drainSendQueue_allDrained (hsize : 0 < m.maxFrameSize) :
    0 < (m.forEachStream drainSendQueue).maxFrameSize ∧ (m.forEachStream drainSendQueue).AllDrained := by
  refine forEachStream_visits (I := fun m => 0 < m.maxFrameSize) (P := Drained) hsize ?_ ?_ ?_
  · intro m' st hsize' hget
    rwa [(sends_settings (drainSendQueue_sends hget)).1]
  · exact fun m' st hsize' hget => drainSendQueue_drained hget hsize'
  · exact fun m' st _ hget w' hw' _ => sends_drained (drainSendQueue_sends hget) w' hw'

theorem Evolves.allDrained {scope : Scope} (h : Evolves scope m m') (hqueues : scope ≠ .queues) (hsends : scope ≠ .sends)
    (hm : m.AllDrained) : m'.AllDrained := by
  intro st' hst'
  obtain ⟨st, hst, hchanges⟩ := h.streams st' hst'
  have hqueue : st'.sendQueue = st.sendQueue := congrArg Prod.fst (hchanges.queue_eq hqueues hsends)
  rw [Drained, hqueue, hchanges.localWindow_eq hsends, (h.limits hsends).connection]
  exact hm st hst

theorem handleWindowUpdate_allDrained (hsize : 0 < m.maxFrameSize) (hm : m.AllDrained) (frame : WindowUpdateFrame) :
    (m.handleWindowUpdate frame).AllDrained := by
  rw [handleWindowUpdate]
  split
  · have hsize' : 0 < ({ m with connectionSendWindow := m.connectionSendWindow + frame.windowSizeIncrement } : Manager).maxFrameSize :=
      hsize
    exact (forEachStream_drainSendQueue_allDrained hsize').2
  · split
    · exact hm
    · refine drainSendQueue_allDrained (Table.get_set_self _ _) hsize fun w hw hid => ?_
      exact hm w ((Table.mem_set hw).resolve_left fun heq => hid (congrArg ManagedStream.id heq)).1

theorem applyRemoteSettings_allDrained (hsize : 0 < m.maxFrameSize) (hm : m.AllDrained) (settings : SettingsMap) :
    (m.applyRemoteSettings settings).AllDrained := by
  have hsetting : ∀ (m : Manager) (key value : Nat), 0 < m.maxFrameSize ∧ m.AllDrained →
      0 < (m.applyRemoteSetting key value).maxFrameSize ∧ (m.applyRemoteSetting key value).AllDrained := by
    intro m key value h
    unfold applyRemoteSetting
    split
    · exact h
    · rw [applyInitialWindowSize]
      dsimp only
      rw [forEachStream_setStream { m with remoteInitialWindowSize := value }
        (fun st => { st with localWindow :=
          { st.localWindow with size := st.localWindow.size + (value - m.remoteInitialWindowSize) } }) fun _ => rfl]
      exact forEachStream_drainSendQueue_allDrained h.1
    · refine ⟨?_, h.2⟩
      have hrange := (clampMaxFrameSize_range value).1
      exact Nat.lt_of_lt_of_le (by decide) hrange
    · exact h
  rw [applyRemoteSettings]
  have hstart : 0 < m.maxFrameSize ∧ m.AllDrained := ⟨hsize, hm⟩
  suffices hend : 0 < (settings.entries.foldl (fun m entry => m.applyRemoteSetting entry.1 entry.2) m).maxFrameSize ∧
      (settings.entries.foldl (fun m entry => m.applyRemoteSetting entry.1 entry.2) m).AllDrained from hend.2
  generalize settings.entries = entries
  induction entries generalizing m with
  | nil => exact hstart
  | cons entry entries ih =>
      have hnext := hsetting m entry.1 entry.2 hstart
      exact ih hnext.1 hnext.2 hnext

theorem sendData_allDrained (hsize : 0 < m.maxFrameSize) (hm : m.AllDrained) (streamId : StreamId) (data : Bytes) (endStream : Bool) :
    (m.sendData streamId data endStream).AllDrained := by
  cases hget : m.streams.get streamId with
  | none =>
      rw [sendData, hget]
      exact hm
  | some st =>
      rw [sendData_eq hget]
      refine drainSendQueue_allDrained (Table.get_set_self _ _) hsize fun w hw hid => ?_
      exact hm w ((Table.mem_set hw).resolve_left fun heq => hid (congrArg ManagedStream.id heq)).1

theorem step_allDrained (hsize : 0 < m.maxFrameSize) (hm : m.AllDrained) (op : ManagerOp) : (m.step op).AllDrained := by
  have hquiet : op.scope ≠ .queues → op.scope ≠ .sends → op ≠ .openStream → (∀ frame, op ≠ .dispatch (.pushPromise frame)) →
      (m.step op).AllDrained :=
    fun hqueues hsends hopen hpush => (step_evolves hopen hpush).allDrained hqueues hsends hm
  cases op with
  | openStream =>
      intro st hst
      rcases Table.mem_set hst with rfl | ⟨hst, -⟩
      · exact .inl rfl
      · exact hm st hst
  | dispatch frame =>
      cases frame with
      | settings frame =>
          show (m.handleSettings frame).AllDrained
          rw [handleSettings]
          split
          · exact hm
          · exact applyRemoteSettings_allDrained hsize hm frame.settings
      | windowUpdate frame => exact handleWindowUpdate_allDrained hsize hm frame
      | pushPromise frame =>
          obtain ⟨st, hchanges, hstreams⟩ := handlePushPromise_streams m frame
          intro w hw
          have hw' : w ∈ (m.streams.set st).entries := hstreams ▸ hw
          rcases Table.mem_set hw' with rfl | ⟨hold, -⟩
          · exact .inl (congrArg Prod.fst (hchanges.queue_eq (by decide) (by decide)))
          · have hconnection : (m.handlePushPromise frame).1.connectionSendWindow = m.connectionSendWindow :=
              (handlePushPromise_kept m frame).2.connection
            have hdrained := hm w hold
            rw [Drained] at hdrained ⊢
            rwa [← hconnection] at hdrained
      | _ => exact hquiet (by simp [ManagerOp.scope]) (by simp [ManagerOp.scope]) (by simp) (by simp)
  | sendData streamId data endStream => exact sendData_allDrained hsize hm streamId data endStream
  | applyWindowUpdate streamId increment => exact handleWindowUpdate_allDrained hsize hm _
  | expectResponse streamId resolve reject => exact hquiet (by simp [ManagerOp.scope]) (by simp [ManagerOp.scope]) (by simp) (by simp)
  | abortAll error => exact hquiet (by simp [ManagerOp.scope]) (by simp [ManagerOp.scope]) (by simp) (by simp)

end Manager

/-- Between operations, a stream with a non-empty send queue is held back by the connection's window or its own. -/
theorem send_queues_never_stall (ops : List ManagerOp) :
    ∀ st ∈ (Manager.run ops).streams.entries,
      st.sendQueue = [] ∨ (Manager.run ops).connectionSendWindow ≤ 0 ∨ st.localWindow.size ≤ 0 := by
  show (Manager.run ops).AllDrained
  induction ops using List.reverseRecOn with
  | nil => exact fun _ hst => absurd hst List.not_mem_nil
  | append_singleton ops op ih =>
      have hrange := (Manager.run_maxFrameSize ops).1
      rw [Manager.run_concat]
      exact Manager.step_allDrained (Nat.lt_of_lt_of_le (by decide) hrange) ih op

theorem send_queues_never_stall_cut :
    cutStream.sendQueue = [] ∨ (Manager.run (.openStream :: cutUpload)).connectionSendWindow ≤ 0 ∨ cutStream.localWindow.size ≤ 0 :=
  send_queues_never_stall (.openStream :: cutUpload) cutStream (by decide +kernel)

end BrowsercoreHttp2
