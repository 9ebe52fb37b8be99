import BrowsercoreHttp2.Connection.Outbound

/-!
# Requests on the wire

Of HEADERS and DATA frames, the peer sees on the stream of a request its HEADERS and then its body in pieces,
whatever else the connection does in between and whatever becomes of the response. The frames that are handed to
`serializeFrame` open their streams in the order of the ids, and no DATA goes out on a stream whose HEADERS did not.
-/

namespace BrowsercoreHttp2

open SendBuffer (Fragments carries_write carries_empty)

/-- A frame that carries part of the request on a stream. -/
def Frame.carriesRequest (id : StreamId) : Frame → Bool
  | .headers frame => frame.streamId = id
  | .data frame => frame.streamId = id
  | _ => false

/-- An acknowledgement, or credit. -/
def Frame.isAnswer : Frame → Bool
  | .settings frame => frame.ack
  | .ping frame => frame.ack
  | .windowUpdate _ => true
  | _ => false

/-- The chunk a DATA frame carries on a stream. -/
def Frame.chunkOn (id : StreamId) : Frame → Option (Bytes × Bool)
  | .data frame => if frame.streamId = id then some (frame.payload, frame.flags &&& 0x1 ≠ 0) else none
  | _ => none

namespace Manager

variable {m : Manager} {base : List Effect} {id : StreamId} {b : SendBuffer UInt8}

/-! ### What a manager has sent on a stream -/

/-- A frame that a manager may have sent: a chunk, or an answer that carries no part of a request. -/
def Sendable (frame : Frame) : Prop := (∃ id chunk, frame = dataFrame id chunk) ∨ ∀ id, frame.carriesRequest id = false

/-- All that a manager answers frames with are acknowledgements and credit. -/
theorem replies_isAnswer (m : Manager) (op : ManagerOp) : ∀ frame ∈ m.replies op, frame.isAnswer = true := by
  have hcredited : ∀ frame : DataFrame, ∀ answer ∈ m.creditFrames frame, answer.isAnswer = true := by
    intro frame answer hanswer
    rw [creditFrames] at hanswer
    split at hanswer
    · exact absurd hanswer List.not_mem_nil
    · split at hanswer
      · rw [List.mem_singleton.mp hanswer]
        rfl
      · rcases List.mem_cons.mp hanswer with heq | hlast
        · rw [heq]
          rfl
        · rw [List.mem_singleton.mp hlast]
          rfl
  intro answer hanswer
  cases op with
  | dispatch frame =>
      cases frame with
      | settings frame =>
          simp only [replies, answers] at hanswer
          split at hanswer
          · exact absurd hanswer List.not_mem_nil
          · rw [List.mem_singleton.mp hanswer]
            rfl
      | ping frame =>
          simp only [replies, answers] at hanswer
          split at hanswer
          · exact absurd hanswer List.not_mem_nil
          · rw [List.mem_singleton.mp hanswer]
            rfl
      | data frame => exact hcredited frame answer hanswer
      | _ => exact absurd hanswer List.not_mem_nil
  | _ => exact absurd hanswer List.not_mem_nil

theorem replies_sendable (m : Manager) (op : ManagerOp) : ∀ frame ∈ m.replies op, Sendable frame := by
  intro frame hframe
  have hanswer := m.replies_isAnswer op frame hframe
  refine .inr fun id => ?_
  cases frame with
  | headers | data => exact absurd hanswer Bool.false_ne_true
  | _ => rfl

theorem steps_sendable (ops : List ManagerOp) : ∀ frame ∈ (run ops).sent, Sendable frame := by
  induction ops using List.reverseRecOn with
  | nil => exact fun frame hframe => absurd hframe List.not_mem_nil
  | append_singleton ops op ih =>
      obtain ⟨chunks, hsent, -, -⟩ := (run ops).step_sent op
      rw [run_concat, hsent]
      refine List.forall_mem_append.mpr ⟨List.forall_mem_append.mpr ⟨ih, fun frame hframe => ?_⟩, replies_sendable _ op⟩
      obtain ⟨chunk, -, hchunk⟩ := List.mem_map.mp hframe
      exact .inl ⟨chunk.1, chunk.2, hchunk.symm⟩

/-- Of sendable frames the ones on a stream are the chunks on it. -/
theorem filter_carriesRequest {frames : List Frame} (h : ∀ frame ∈ frames, Sendable frame) (id : StreamId) :
    frames.filter (Frame.carriesRequest id) = (frames.filterMap (Frame.chunkOn id)).map (dataFrame id) := by
  induction frames with
  | nil => rfl
  | cons frame frames ih =>
      obtain ⟨hframe, hframes⟩ := List.forall_mem_cons.mp h
      rw [List.filter_cons, List.filterMap_cons, ih hframes]
      rcases hframe with ⟨own, chunk, hchunk⟩ | hother
      · rw [hchunk]
        have hmark : decide ((if chunk.2 then 0x1 else 0) &&& 0x1 ≠ 0) = chunk.2 := by cases chunk.2 <;> rfl
        by_cases hid : own = id
        · have hcarries : (dataFrame own chunk).carriesRequest id = true := decide_eq_true hid
          have hchunkOn : (dataFrame own chunk).chunkOn id = some chunk := by
            refine (if_pos hid).trans (congrArg some ?_)
            exact Prod.ext rfl hmark
          rw [hcarries, hchunkOn, if_pos rfl, hid]
          rfl
        · have hcarries : (dataFrame own chunk).carriesRequest id = false := decide_eq_false hid
          have hchunkOn : (dataFrame own chunk).chunkOn id = none := if_neg hid
          rw [hcarries, hchunkOn, if_neg Bool.false_ne_true]
      · have hchunkOn : frame.chunkOn id = none := by
          cases frame with
          | data frame => exact if_neg (of_decide_eq_false (hother id))
          | _ => rfl
        rw [hother id, hchunkOn, if_neg Bool.false_ne_true]

theorem filterMap_chunkOn (m : Manager) (id : StreamId) : m.sent.filterMap (Frame.chunkOn id) = chunksOn id m.effects := by
  rw [sent, List.filterMap_filterMap, chunksOn]
  congr 1
  funext effect
  cases effect with
  | sendFrame frame =>
      cases frame <;> rfl
  | _ => rfl

theorem run_sent_on (ops : List ManagerOp) (id : StreamId) :
    (run ops).sent.filter (Frame.carriesRequest id) = (chunksOn id (run ops).effects).map (dataFrame id) := by
  rw [filter_carriesRequest (steps_sendable ops) id, filterMap_chunkOn]

/-! ### Buffers that nothing is written to -/

/-- Operations that neither open a stream under an id nor hand in data for it send from its buffer, or give it up. -/
theorem steps_unwritten {P : SendBuffer UInt8 → Prop} (hsends : ∀ b b', b.Sends b' → P b → P b')
    (hgone : ∀ b, P b → P b.discard) {ops : List ManagerOp}
    (hopens : ∀ pre post, ops = pre ++ .openStream :: post → (m.steps pre).nextStreamId ≠ id)
    (hunwritten : ∀ data endStream, .sendData id data endStream ∉ ops) (h : Tracks base id m b) (hb : P b) :
    ∃ b', Tracks base id (m.steps ops) b' ∧ P b' := by
  induction ops using List.reverseRecOn with
  | nil => exact ⟨b, h, hb⟩
  | append_singleton ops op ih =>
      obtain ⟨b₁, h₁, hb₁⟩ := ih
        (fun pre post hsplit => hopens pre (post ++ [op]) (by rw [hsplit, List.append_assoc, List.cons_append]))
        fun data endStream hmem => hunwritten data endStream (List.mem_append_left _ hmem)
      have hopen : op = .openStream → (m.steps ops).nextStreamId ≠ id := by
        intro hop
        exact hopens ops [] (by rw [hop])
      have hwrote : (m.steps ops).wrote id b₁ op = b₁ := wrote_eq _ _ fun data endStream hop =>
        hunwritten data endStream (hop ▸ List.mem_append_right ops List.mem_cons_self)
      rw [steps_concat]
      rcases step_tracks h₁ hopen with ⟨b₂, hsent, h₂⟩ | ⟨h₂, -⟩
      · rw [hwrote] at hsent
        exact ⟨b₂, h₂, hsends b₁ b₂ hsent hb₁⟩
      · exact ⟨b₁.discard, h₂, hgone b₁ hb₁⟩

end Manager

namespace Http2Connection

variable {c : Http2Connection} {id : StreamId}

/-! ### HEADERS -/

/-- A step sends part of a request itself only on the stream it opens. -/
theorem sends_carriesRequest {s : ConnectionStep} (h : ¬ (c.Opens s ∧ id = c.manager.nextStreamId)) :
    (c.sends s).filter (Frame.carriesRequest id) = [] := by
  cases s with
  | resume call =>
      simp only [sends, executorSends]
      split
      · rename_i hgranted
        split
        · rfl
        · split
          · rfl
          · have hother : c.manager.nextStreamId ≠ id := fun hid => h ⟨⟨call, rfl, hgranted⟩, hid.symm⟩
            exact List.filter_cons_of_neg (Bool.eq_false_iff.mp (decide_eq_false hother))
      · rfl
  | goaway lastStreamId errorCode debugData => rfl
  | close =>
      simp only [sends]
      split <;> rfl
  | ping promise data =>
      simp only [sends]
      split <;> rfl
  | _ => rfl

theorem asks_opens {s : ConnectionStep} {pre post : List ManagerOp} (h : c.asks s = pre ++ .openStream :: post) :
    pre = [] ∧ c.Opens s := by
  have hopens : c.Opens s := asks_openStream (h ▸ List.mem_append_right pre List.mem_cons_self)
  refine ⟨?_, hopens⟩
  obtain ⟨call, hresume, hgranted⟩ := hopens
  rw [hresume, asks, if_pos hgranted] at h
  cases pre with
  | nil => rfl
  | cons op pre =>
      obtain ⟨-, hrest⟩ := List.cons.inj h
      have hmem : ManagerOp.openStream ∈ c.executorAsks c.manager.nextStreamId call :=
        hrest ▸ List.mem_append_right pre List.mem_cons_self
      rcases executorAsks_cases hmem with hop | hop <;> exact absurd hop (by simp)

theorem step_unwritten {P : SendBuffer UInt8 → Prop} (hsends : ∀ b b', b.Sends b' → P b → P b')
    (hgone : ∀ b, P b → P b.discard) {s : ConnectionStep} (hother : ¬ (c.Opens s ∧ id = c.manager.nextStreamId))
    {base : List Effect} {b : SendBuffer UInt8} (h : Manager.Tracks base id c.manager b) (hb : P b) :
    ∃ b', Manager.Tracks base id (c.step s).manager b' ∧ P b' := by
  rw [step_manager]
  refine Manager.steps_unwritten hsends hgone (fun pre post hsplit heq => ?_) (fun data endStream hmem => ?_) h hb
  · obtain ⟨hfirst, hopens⟩ := asks_opens hsplit
    rw [hfirst] at heq
    exact hother ⟨hopens, heq.symm⟩
  · exact hother (asks_sendData hmem)

/-! ### The stream of a request -/

/-- The octets of the body that follow the HEADERS on a stream. -/
def bodyAfter (headers : List Frame) (call : RequestCall) : Bytes := if headers = [] then [] else call.req.body.getD []

/-- What the step that opens the stream of a request leaves in its buffer. -/
theorem resume_carries (h : Manager.Tracks [] c.manager.nextStreamId c.manager .empty) {call : RequestCall}
    (hgranted : call ∈ c.granted) :
    ∃ b, Manager.Tracks [] c.manager.nextStreamId (c.step (.resume call)).manager b ∧
      b.Carries (bodyAfter (c.sends (.resume call)) call) := by
  have hasks : c.asks (.resume call) = .openStream :: c.executorAsks c.manager.nextStreamId call := if_pos hgranted
  have hsends : c.sends (.resume call) = c.executorSends c.manager.nextStreamId call := if_pos hgranted
  have hopened := Manager.openStream_tracks h
  have hexpected := Manager.expectResponse_tracks hopened c.manager.nextStreamId call.promise call.promise
  rw [step_manager, hasks, hsends, executorAsks, executorSends]
  split
  · exact ⟨.empty, hopened, carries_empty _⟩
  · cases c.requestBlock call.req with
    | error e => exact ⟨.empty, hexpected, carries_empty _⟩
    | ok payload =>
        dsimp only
        split
        · exact ⟨.empty, hexpected, carries_empty _⟩
        · obtain ⟨b, hsent, htracks⟩ := Manager.sendData_tracks hexpected c.manager.nextStreamId (call.req.body.getD []) true
          refine ⟨b, htracks, hsent.carries ?_⟩
          rw [Manager.wrote]
          split
          · exact carries_write _
          · exact carries_empty _

/-- What has gone out on a stream: HEADERS, and what followed them of a body. -/
structure Streamed (c : Http2Connection) (id : StreamId) (headers : List Frame) (body : Bytes) : Prop where
  own : c.ownFrames.filter (Frame.carriesRequest id) = headers
  outbound : c.outbound.filter (Frame.carriesRequest id) =
    headers ++ (chunksOn id c.manager.effects).map (dataFrame id)
  body : ∃ b, Manager.Tracks [] id c.manager b ∧ b.Carries body

theorem Streamed.fragments {headers : List Frame} {body : Bytes} (h : c.Streamed id headers body) :
    ∃ sent, c.outbound.filter (Frame.carriesRequest id) = headers ++ sent.map (dataFrame id) ∧ Fragments body sent := by
  obtain ⟨b, htracks, hcarries⟩ := h.body
  obtain ⟨new, hnew, hsent⟩ := htracks.sent
  refine ⟨b.sent, ?_, hcarries.fragments⟩
  rw [h.outbound, hnew, List.nil_append, hsent]

theorem step_chunksOn (options : Http2Options) (s : List ConnectionStep) (a : ConnectionStep) (id : StreamId) {own new : List Frame}
    (h : Emits (run options s) own new ((run options s).step a)) :
    (chunksOn id ((run options s).step a).manager.effects).map (dataFrame id) =
      (chunksOn id (run options s).manager.effects).map (dataFrame id) ++ new.filter (Frame.carriesRequest id) := by
  obtain ⟨ops, hops⟩ := run_managed options s
  obtain ⟨ops', hops'⟩ := run_managed options (s ++ [a])
  rw [run_concat] at hops'
  rw [hops', hops, ← Manager.run_sent_on, ← Manager.run_sent_on, ← hops', ← hops, h.manager, List.filter_append]

theorem Streamed.step {options : Http2Options} {s : List ConnectionStep} {headers : List Frame} {body : Bytes}
    (h : (run options s).Streamed id headers body) {a : ConnectionStep}
    (hother : ¬ ((run options s).Opens a ∧ id = (run options s).manager.nextStreamId)) :
    (run options (s ++ [a])).Streamed id headers body := by
  obtain ⟨b, htracks, hcarries⟩ := h.body
  obtain ⟨chunks, -, hemits⟩ := (run options s).step_sends a
  have hnone := sends_carriesRequest hother
  rw [run_concat]
  refine ⟨?_, ?_, ?_⟩
  · rw [step_ownFrames, List.filter_append, hnone, List.append_nil, h.own]
  · rw [hemits.outbound, List.filter_append, List.filter_append, hnone, List.append_nil, h.outbound, List.append_assoc,
      step_chunksOn options s a id hemits]
  · exact step_unwritten (fun b b' hsends hb => hsends.carries hb) (fun b hb => hb.discard) hother htracks hcarries

theorem run_fresh (options : Http2Options) (s : List ConnectionStep) (hid : (run options s).manager.nextStreamId ≤ id) :
    (run options s).Streamed id [] [] := by
  have htracks := ((run_uploads options s).fresh id hid).2
  induction s using List.reverseRecOn with
  | nil => exact ⟨rfl, rfl, .empty, htracks, carries_empty _⟩
  | append_singleton s a ih =>
      have hother : ¬ ((run options s).Opens a ∧ id = (run options s).manager.nextStreamId) := by
        intro hopens
        have hlt := nextStreamId_lt_of_opens hopens.1
        rw [run_concat, hopens.2] at hid
        exact Nat.not_le_of_gt hlt hid
      have hle : (run options s).manager.nextStreamId ≤ id := by
        rw [run_concat] at hid
        exact ((run options s).step_advances a).nextStreamId_le.trans hid
      exact (ih hle ((run_uploads options s).fresh id hle).2).step hother

/-- The step that opens a stream sends its HEADERS first. -/
theorem run_resumed (options : Http2Options) (s : List ConnectionStep) {call : RequestCall} (hgranted : call ∈ (run options s).granted) :
    (run options (s ++ [.resume call])).Streamed (run options s).manager.nextStreamId
      ((run options s).sends (.resume call)) (bodyAfter ((run options s).sends (.resume call)) call) := by
  have hfresh := run_fresh options s (Nat.le_refl (run options s).manager.nextStreamId)
  obtain ⟨chunks, -, hemits⟩ := (run options s).step_sends (.resume call)
  have hunsent : chunksOn (run options s).manager.nextStreamId (run options s).manager.effects = [] := by
    obtain ⟨b, htracks, hcarries⟩ := hfresh.body
    obtain ⟨new, hnew, hsent⟩ := htracks.sent
    rw [hnew, List.nil_append, hsent, hcarries.fragments.eq_nil]
  have hheaders : ((run options s).sends (.resume call)).filter (Frame.carriesRequest (run options s).manager.nextStreamId) =
      (run options s).sends (.resume call) := by
    rw [sends, if_pos hgranted, executorSends]
    split
    · rfl
    · split
      · rfl
      · exact List.filter_cons_of_pos (decide_eq_true rfl)
  have hchunks := step_chunksOn options s (.resume call) (run options s).manager.nextStreamId hemits
  rw [hunsent, List.map_nil, List.nil_append] at hchunks
  refine ⟨?_, ?_, ?_⟩
  · rw [run_concat, step_ownFrames, List.filter_append, hfresh.own, List.nil_append, hheaders]
  · rw [run_concat, hemits.outbound, List.filter_append, List.filter_append, hfresh.outbound, hunsent, hheaders, hchunks]
    rfl
  · rw [run_concat]
    exact resume_carries ((run_uploads options s).fresh _ (Nat.le_refl _)).2 hgranted

theorem Streamed.steps {options : Http2Options} {s : List ConnectionStep} {headers : List Frame} {body : Bytes}
    (h : (run options s).Streamed id headers body) (hid : id < (run options s).manager.nextStreamId) (after : List ConnectionStep) :
    (run options (s ++ after)).Streamed id headers body := by
  induction after using List.reverseRecOn with
  | nil =>
      rw [List.append_nil]
      exact h
  | append_singleton after a ih =>
      have hle : (run options s).manager.nextStreamId ≤ (run options (s ++ after)).manager.nextStreamId := by
        rw [run_append]
        exact (steps_advances _ after).nextStreamId_le
      rw [← List.append_assoc]
      exact ih.step fun hopens => absurd hopens.2 (hid.trans_le hle).ne

/-! ### Every stream -/

theorem bodiless_body {req : Http2Request} (h : bodiless req = true) : req.body.getD [] = [] := by
  cases hbody : req.body with
  | none => rfl
  | some data =>
      rw [bodiless, hbody, Option.all_some, decide_eq_true_eq] at h
      exact List.length_eq_zero_iff.mp h

/-- On a stream there are no frames of a request, or one HEADERS frame and then a body that it does not rule out. -/
theorem run_streamed (options : Http2Options) (s : List ConnectionStep) (id : StreamId) :
    ∃ headers body, (run options s).Streamed id headers body ∧
      (headers = [] ∧ body = [] ∨
        ∃ frame, headers = [.headers frame] ∧ frame.streamId = id ∧ (frame.endStream = true → body = [])) := by
  induction s using List.reverseRecOn with
  | nil => exact ⟨[], [], ⟨rfl, rfl, .empty, ⟨⟨[], rfl, rfl⟩, rfl⟩, carries_empty _⟩, .inl ⟨rfl, rfl⟩⟩
  | append_singleton s a ih =>
      by_cases hopens : (run options s).Opens a ∧ id = (run options s).manager.nextStreamId
      · obtain ⟨⟨call, hresume, hgranted⟩, hid⟩ := hopens
        have hsends : (run options s).sends (.resume call) =
            (run options s).executorSends (run options s).manager.nextStreamId call := if_pos hgranted
        rw [hresume, hid]
        refine ⟨_, _, run_resumed options s hgranted, ?_⟩
        rw [hsends, executorSends]
        split
        · exact .inl ⟨rfl, rfl⟩
        · split
          · exact .inl ⟨rfl, rfl⟩
          · exact .inr ⟨_, rfl, rfl, fun hends => bodiless_body hends⟩
      · obtain ⟨headers, body, hstreamed, hshape⟩ := ih
        exact ⟨headers, body, hstreamed.step hopens, hshape⟩

/-- The stream that a HEADERS frame opens on the wire. -/
def headersId : Frame → Option StreamId
  | .headers frame => some frame.streamId
  | _ => none

theorem headersId_sends (c : Http2Connection) (s : ConnectionStep) :
    (c.sends s).filterMap headersId = [] ∨ c.Opens s ∧ (c.sends s).filterMap headersId = [c.manager.nextStreamId] := by
  cases s with
  | resume call =>
      simp only [sends, executorSends]
      split
      · rename_i hgranted
        split
        · exact .inl rfl
        · split
          · exact .inl rfl
          · exact .inr ⟨⟨call, rfl, hgranted⟩, rfl⟩
      · exact .inl rfl
  | close =>
      simp only [sends]
      split <;> exact .inl rfl
  | ping promise data =>
      simp only [sends]
      split <;> exact .inl rfl
  | _ => exact .inl rfl

theorem not_headers_of_sendable {frame : Frame} (h : Manager.Sendable frame) (headers : HeadersFrame) : frame ≠ .headers headers := by
  intro heq
  rw [heq] at h
  rcases h with ⟨id, chunk, hchunk⟩ | hother
  · exact absurd hchunk (by simp [dataFrame])
  · exact absurd rfl (of_decide_eq_false (hother headers.streamId))

/-- What goes out in a step behind the frames of the connection itself. -/
theorem rest_sendable (c : Http2Connection) (chunks : List (StreamId × Bytes × Bool)) (a : ConnectionStep) :
    ∀ frame ∈ chunks.map (fun chunk => dataFrame chunk.1 chunk.2) ++ c.answersTo a, Manager.Sendable frame := by
  intro frame hframe
  rcases List.mem_append.mp hframe with hchunk | hanswer
  · obtain ⟨chunk, -, heq⟩ := List.mem_map.mp hchunk
    exact .inl ⟨chunk.1, chunk.2, heq.symm⟩
  · cases a with
    | receiveFrame received =>
        simp only [answersTo] at hanswer
        split at hanswer
        · exact Manager.replies_sendable _ (.dispatch received) frame hanswer
        · exact absurd hanswer List.not_mem_nil
    | _ => exact absurd hanswer List.not_mem_nil

theorem headersId_of_sendable {frames : List Frame} (h : ∀ frame ∈ frames, Manager.Sendable frame) : frames.filterMap headersId = [] := by
  refine List.filterMap_eq_nil_iff.mpr fun frame hframe => ?_
  cases frame with
  | headers headers => exact absurd rfl (not_headers_of_sendable (h _ hframe) headers)
  | _ => rfl

theorem run_headersIds (options : Http2Options) (s : List ConnectionStep) :
    ((run options s).outbound.filterMap headersId).Pairwise (· < ·) ∧
      ∀ id ∈ (run options s).outbound.filterMap headersId, id < (run options s).manager.nextStreamId := by
  induction s using List.reverseRecOn with
  | nil => exact ⟨.nil, fun id hid => absurd hid List.not_mem_nil⟩
  | append_singleton s a ih =>
      obtain ⟨chunks, -, hemits⟩ := (run options s).step_sends a
      have hle : (run options s).manager.nextStreamId ≤ ((run options s).step a).manager.nextStreamId :=
        ((run options s).step_advances a).nextStreamId_le
      have hnone : (chunks.map (fun chunk => dataFrame chunk.1 chunk.2) ++ (run options s).answersTo a).filterMap headersId = [] :=
        headersId_of_sendable ((run options s).rest_sendable chunks a)
      rw [run_concat, hemits.outbound, List.filterMap_append, List.filterMap_append, hnone, List.append_nil]
      rcases headersId_sends (run options s) a with hquiet | ⟨hopens, hid⟩
      · rw [hquiet, List.append_nil]
        exact ⟨ih.1, fun id hid => (ih.2 id hid).trans_le hle⟩
      · rw [hid]
        have hlt := nextStreamId_lt_of_opens hopens
        refine ⟨List.pairwise_append.mpr ⟨ih.1, List.pairwise_singleton _ _, fun id hmem next hnext => ?_⟩, fun id hmem => ?_⟩
        · rw [List.mem_singleton.mp hnext]
          exact ih.2 id hmem
        · rcases List.mem_append.mp hmem with hold | hnew
          · exact (ih.2 id hold).trans_le hle
          · rw [List.mem_singleton.mp hnew]
            exact hlt

end Http2Connection

open Http2Connection in
/-- Among the frames handed to `serializeFrame`, HEADERS have ascending ids, and DATA goes out only on a stream whose HEADERS
went out before it without END_STREAM, and on which no DATA frame has carried END_STREAM. The ids are those on the wire for as
long as these fit their 31 bits, which is for `2^30` requests. -/
theorem streams_open_in_order (options : Http2Options) (s : List ConnectionStep) :
    ((run options s).outbound.filterMap headersId).Pairwise (· < ·) ∧
      ∀ pre frame post, (run options s).outbound = pre ++ .data frame :: post →
        (∃ headers, .headers headers ∈ pre ∧ headers.streamId = frame.streamId ∧ headers.endStream = false) ∧
          ∀ earlier, .data earlier ∈ pre → earlier.streamId = frame.streamId → earlier.flags &&& 0x1 = 0 := by
  refine ⟨(run_headersIds options s).1, fun pre frame post hsplit => ?_⟩
  obtain ⟨headers, body, hstreamed, hshape⟩ := run_streamed options s frame.streamId
  obtain ⟨sent, hsent, hfragments⟩ := hstreamed.fragments
  have hcarries : (Frame.data frame).carriesRequest frame.streamId = true := decide_eq_true rfl
  rw [hsplit, List.filter_append, List.filter_cons_of_pos hcarries] at hsent
  rcases hshape with ⟨hnone, hempty⟩ | ⟨first, hfirst, hid, hends⟩
  · rw [hempty] at hfragments
    have hnothing := SendBuffer.Fragments.eq_nil hfragments
    rw [hnone, hnothing] at hsent
    exact absurd hsent (by simp)
  · rw [hfirst, List.singleton_append] at hsent
    -- the frame is not the HEADERS, so these are before it
    obtain ⟨earlier, hearlier⟩ : ∃ earlier, pre.filter (Frame.carriesRequest frame.streamId) = .headers first :: earlier := by
      cases hpre : pre.filter (Frame.carriesRequest frame.streamId) with
      | nil =>
          rw [hpre, List.nil_append] at hsent
          exact absurd (List.cons.inj hsent).1 (by simp)
      | cons head earlier =>
          rw [hpre, List.cons_append] at hsent
          exact ⟨earlier, by rw [(List.cons.inj hsent).1]⟩
    rw [hearlier, List.cons_append] at hsent
    have hchunks := (List.cons.inj hsent).2
    obtain ⟨before, rest, hparts, hbefore, hrest⟩ := List.append_eq_map_iff.mp hchunks
    obtain ⟨chunk, after, hrestparts, hchunk, -⟩ := List.map_eq_cons_iff.mp hrest
    refine ⟨⟨first, ?_, hid, ?_⟩, fun data hdata hsame => ?_⟩
    · exact (List.mem_filter.mp (hearlier ▸ List.mem_cons_self)).1
    · rw [← Bool.not_eq_true]
      intro hended
      rw [hends hended] at hfragments
      rw [SendBuffer.Fragments.eq_nil hfragments, hrestparts] at hparts
      exact absurd hparts (by simp)
    · by_contra hmarked
      have hmem : Frame.data data ∈ pre.filter (Frame.carriesRequest frame.streamId) :=
        List.mem_filter.mpr ⟨hdata, decide_eq_true hsame⟩
      rw [hearlier, ← hbefore] at hmem
      obtain ⟨marked, hmarkedMem, hmarkedFrame⟩ := List.mem_map.mp ((List.mem_cons.mp hmem).resolve_left (by simp))
      obtain ⟨front, back, hfront⟩ := List.append_of_mem hmarkedMem
      have hflag : marked.2 = true := by
        by_contra hunmarked
        have hflags := congrArg Frame.flags hmarkedFrame
        rw [Bool.not_eq_true] at hunmarked
        simp only [dataFrame, Frame.flags, hunmarked] at hflags
        rw [← hflags] at hmarked
        exact hmarked (by decide)
      have hlast := hfragments.last front marked (back ++ rest) (by rw [hparts, hfront, List.append_assoc, List.cons_append]) hflag
      rw [hrestparts] at hlast
      exact absurd (List.append_eq_nil_iff.mp hlast).2 (List.cons_ne_nil _ _)

open Http2Connection in
/-- Of a request that has been let through, the HEADERS and DATA frames on the stream are its HEADERS, unless the connection
is closing or the header block cannot be encoded, and then the body off its front in pieces that are not empty, with END_STREAM
on the piece that completes it. -/
theorem request_on_wire (options : Http2Options) (before after : List ConnectionStep) (call : RequestCall)
    (hgranted : call ∈ (run options before).granted) :
    ∃ sent, (run options (before ++ .resume call :: after)).outbound.filter
          (Frame.carriesRequest (run options before).manager.nextStreamId) =
        (run options before).executorSends (run options before).manager.nextStreamId call ++
          sent.map (dataFrame (run options before).manager.nextStreamId) ∧
      Fragments (bodyAfter ((run options before).executorSends (run options before).manager.nextStreamId call) call) sent := by
  have hsends : (run options before).sends (.resume call) =
      (run options before).executorSends (run options before).manager.nextStreamId call := if_pos hgranted
  have hopened := run_resumed options before hgranted
  have hid := nextStreamId_lt_of_opens (c := run options before) ⟨call, rfl, hgranted⟩
  rw [← run_concat] at hid
  have hstreamed := hopened.steps hid after
  rw [List.append_assoc] at hstreamed
  rw [← hsends]
  exact hstreamed.fragments

/-- An upload of four octets with a window of three, and then one octet more. -/
def slowUpload : List ConnectionStep :=
  [ .receiveFrame (.settings { flags := 0, streamId := 0, ack := false, settings := SettingsMap.empty.set 0x4 3 }),
    .request ⟨⟨"POST", "https", "a", "/", .empty, some [1, 2, 3, 4]⟩, 0⟩ ]

open Http2Connection in
theorem request_on_wire_slow :
    ∃ sent, (run {} (slowUpload ++ .resume ⟨⟨"POST", "https", "a", "/", .empty, some [1, 2, 3, 4]⟩, 0⟩ ::
          [.receiveFrame (.windowUpdate ⟨0, 1, 1⟩)])).outbound.filter (Frame.carriesRequest (run {} slowUpload).manager.nextStreamId) =
        (run {} slowUpload).executorSends (run {} slowUpload).manager.nextStreamId
            ⟨⟨"POST", "https", "a", "/", .empty, some [1, 2, 3, 4]⟩, 0⟩ ++
          sent.map (dataFrame (run {} slowUpload).manager.nextStreamId) ∧
      Fragments (bodyAfter ((run {} slowUpload).executorSends (run {} slowUpload).manager.nextStreamId
        ⟨⟨"POST", "https", "a", "/", .empty, some [1, 2, 3, 4]⟩, 0⟩) ⟨⟨"POST", "https", "a", "/", .empty, some [1, 2, 3, 4]⟩, 0⟩) sent :=
  request_on_wire {} slowUpload [.receiveFrame (.windowUpdate ⟨0, 1, 1⟩)] _ (by decide +kernel)

end BrowsercoreHttp2
