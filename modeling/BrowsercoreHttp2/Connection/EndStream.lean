import BrowsercoreHttp2.Connection.Asks
import BrowsercoreHttp2.Connection.Unsent
import BrowsercoreHttp2.Stream.Sent

/-!
# Ending a stream for the peer

The client ends a stream with END_STREAM, on the HEADERS of a request without a body and on the last DATA
frame of any other. Until then its half of the stream is open, whatever has become of the response.
`maybeResolveResponse` takes a stream out of the table as soon as the response is complete and looks at no
queue, and nothing ever sends RST_STREAM.
-/

namespace BrowsercoreHttp2

open Relation

/-- A frame that ends a stream for who receives it. -/
def Frame.endsStream (id : StreamId) : Frame → Bool
  | .data frame => frame.streamId = id && frame.flags &&& 0x1 ≠ 0
  | .headers frame => frame.streamId = id && frame.endStream
  | _ => false

namespace Manager

variable {m m' : Manager} {base : List Effect} {id : StreamId} {b : SendBuffer UInt8}

/-! ### What a manager sends -/

theorem run_sendFrame (ops : List ManagerOp) {frame : Frame} (h : .sendFrame frame ∈ (run ops).effects) :
    (Effect.sendFrame frame).besides none = true := by
  induction ops using List.reverseRecOn with
  | nil => exact absurd h List.not_mem_nil
  | append_singleton ops op ih =>
      rw [run_concat, step_effects_eq] at h
      rcases List.mem_append.mp h with hold | hnew
      · exact ih hold
      · have hbesides := ((run ops).newEffects_besides op _ hnew).resolve_left Bool.false_ne_true
        cases frame <;> exact hbesides

theorem dispatch_sends_keys (m : Manager) {frame : Frame} (hscope : (ManagerOp.dispatch frame).scope = .sends) :
    (m.step (.dispatch frame)).streams.keys = m.streams.keys := by
  cases frame with
  | settings frame =>
      change (m.handleSettings frame).streams.keys = _
      rw [handleSettings]
      split
      · rfl
      · have hkeys := sendMoves_keys (applyRemoteSettings_moves m frame.settings)
        exact hkeys
  | windowUpdate frame => exact sendMoves_keys (handleWindowUpdate_moves m frame)
  | _ => exact absurd hscope (by simp [ManagerOp.scope])

/-! ### Buffers -/

/-- Operations that hand in nothing for a stream whose id is still to come leave nothing under it. -/
theorem steps_tracks_empty {ops : List ManagerOp} (h : Tracks base id m .empty) (hid : (m.steps ops).nextStreamId ≤ id)
    (hops : ∀ data endStream, .sendData id data endStream ∉ ops) : Tracks base id (m.steps ops) .empty := by
  induction ops using List.reverseRecOn with
  | nil => exact h
  | append_singleton ops op ih =>
      rw [steps_concat] at hid ⊢
      have hnext := step_nextStreamId (m.steps ops) op
      have hle : (m.steps ops).nextStreamId ≤ id := by
        refine Nat.le_trans ?_ hid
        rw [hnext]
        split
        · exact Nat.le_add_right _ _
        · exact Nat.le_refl _
      have hbefore := ih hle fun data endStream hmem => hops data endStream (List.mem_append_left _ hmem)
      have hopen : op = .openStream → (m.steps ops).nextStreamId ≠ id := by
        rintro rfl rfl
        rw [hnext, if_pos rfl] at hid
        exact Nat.not_succ_le_self _ (Nat.le_of_succ_le hid)
      rcases step_tracks hbefore hopen with ⟨b', hsends, htracks⟩ | ⟨htracks, -⟩
      · rw [wrote_eq _ _ fun data endStream hop => hops data endStream (hop ▸ List.mem_append_right ops List.mem_cons_self)] at hsends
        exact hsends.of_empty ▸ htracks
      · exact htracks

theorem hasClient_of_steps {ops : List ManagerOp} (hops : .openStream ∉ ops) (h : (m.steps ops).HasClient id) :
    m.HasClient id := by
  induction ops using List.reverseRecOn with
  | nil => exact h
  | append_singleton ops op ih =>
      rw [steps_concat] at h
      refine ih (fun hmem => hops (List.mem_append_left _ hmem)) (hasClient_of_step (fun hop => ?_) h)
      exact absurd (List.mem_append_right ops (hop ▸ List.mem_cons_self)) hops

theorem steps_chunksOn {ops : List ManagerOp} (hops : ∀ op ∈ ops, op.scope ≠ .sends) (id : StreamId) :
    chunksOn id (m.steps ops).effects = chunksOn id m.effects := by
  induction ops using List.reverseRecOn with
  | nil => exact rfl
  | append_singleton ops op ih =>
      have hquiet :=
        chunksOn_of_allowed id ((m.steps ops).newEffects_allowed op) (hops op (List.mem_append_right ops List.mem_cons_self))
      rw [steps_concat, step_effects_eq, chunksOn_append, hquiet, List.append_nil]
      exact ih fun op hmem => hops op (List.mem_append_left _ hmem)

theorem openStream_tracks (h : Tracks base m.nextStreamId m .empty) :
    Tracks base m.nextStreamId (m.step .openStream) .empty where
  sent := h.sent
  queue := by
    have hget : (m.step .openStream).streams.get m.nextStreamId = some m.newClientStream := Table.get_set_self _ _
    exact queueOf_of_get hget

theorem expectResponse_tracks (h : Tracks base id m .empty) (streamId : StreamId) (resolve reject : Callback) :
    Tracks base id (m.step (.expectResponse streamId resolve reject)) .empty := by
  have hquiet : ManagerOp.expectResponse streamId resolve reject = .openStream → m.nextStreamId ≠ id := by simp
  rcases step_tracks h hquiet with ⟨b', hsends, htracks⟩ | ⟨htracks, -⟩
  · rw [wrote_eq m .empty (by simp)] at hsends
    exact hsends.of_empty ▸ htracks
  · exact htracks

end Manager

namespace Http2Connection

variable {c c' : Http2Connection} {id : StreamId}

/-! ### What has been sent -/

/-- The connection or its manager has sent the frame. -/
def HasSent (c : Http2Connection) (frame : Frame) : Prop := frame ∈ c.ownFrames ∨ .sendFrame frame ∈ c.manager.effects

/-- The client has ended the stream for the peer. -/
def EndSent (c : Http2Connection) (id : StreamId) : Prop := ∃ frame, c.HasSent frame ∧ frame.endsStream id = true

/-- The client has reset the stream. -/
def ResetSent (c : Http2Connection) (id : StreamId) : Prop := ∃ frame, c.HasSent (.rstStream frame) ∧ frame.streamId = id

/-- The client has sent HEADERS on the stream. -/
def HeadersSent (c : Http2Connection) (id : StreamId) : Prop := ∃ frame, c.HasSent (.headers frame) ∧ frame.streamId = id

/-- For each HEADERS frame on a stream, whether it ends the stream. -/
def headersOn (id : StreamId) (frames : List Frame) : List Bool := frames.filterMap fun
  | .headers frame => if frame.streamId = id then some frame.endStream else none
  | _ => none

theorem headersOn_append (id : StreamId) (frames frames' : List Frame) :
    headersOn id (frames ++ frames') = headersOn id frames ++ headersOn id frames' := List.filterMap_append

/-- The frames a connection sends itself. -/
def isOwn : Frame → Bool
  | .headers _ | .goaway _ | .ping _ => true
  | _ => false

theorem sends_isOwn (c : Http2Connection) (s : ConnectionStep) : ∀ frame ∈ c.sends s, isOwn frame = true := by
  intro frame hframe
  cases s with
  | resume call =>
      simp only [sends, executorSends] at hframe
      split at hframe
      · split at hframe
        · exact absurd hframe List.not_mem_nil
        · split at hframe
          · exact absurd hframe List.not_mem_nil
          · rw [List.mem_singleton.mp hframe]
            rfl
      · exact absurd hframe List.not_mem_nil
  | goaway lastStreamId errorCode debugData =>
      rw [List.mem_singleton.mp hframe]
      rfl
  | close =>
      simp only [sends] at hframe
      split at hframe
      · exact absurd hframe List.not_mem_nil
      · rw [List.mem_singleton.mp hframe]
        rfl
  | ping promise data =>
      simp only [sends] at hframe
      split at hframe
      · exact absurd hframe List.not_mem_nil
      · rw [List.mem_singleton.mp hframe]
        rfl
  | _ => exact absurd hframe List.not_mem_nil

theorem run_isOwn (options : Http2Options) (s : List ConnectionStep) :
    ∀ frame ∈ (run options s).ownFrames, isOwn frame = true := by
  induction s using List.reverseRecOn with
  | nil => exact fun frame hframe => absurd hframe List.not_mem_nil
  | append_singleton s a ih =>
      rw [run_concat, step_ownFrames]
      exact List.forall_mem_append.mpr ⟨ih, sends_isOwn _ a⟩

theorem run_not_resetSent (options : Http2Options) (s : List ConnectionStep) (id : StreamId) :
    ¬ (run options s).ResetSent id := by
  rintro ⟨frame, hown | hmanager, -⟩
  · exact absurd (run_isOwn options s _ hown) Bool.false_ne_true
  · obtain ⟨ops, hops⟩ := run_managed options s
    rw [hops] at hmanager
    exact absurd (Manager.run_sendFrame ops hmanager) Bool.false_ne_true

theorem mem_headersOn {frames : List Frame} {ends : Bool} :
    ends ∈ headersOn id frames ↔ ∃ frame, .headers frame ∈ frames ∧ frame.streamId = id ∧ frame.endStream = ends := by
  simp only [headersOn, List.mem_filterMap]
  constructor
  · rintro ⟨frame, hmem, hends⟩
    cases frame with
    | headers frame =>
        dsimp only at hends
        split at hends
        · rename_i hid
          exact ⟨frame, hmem, hid, Option.some.inj hends⟩
        · exact absurd hends (by simp)
    | _ => exact absurd hends (by simp)
  · rintro ⟨frame, hmem, hid, hends⟩
    exact ⟨.headers frame, hmem, (if_pos hid).trans (congrArg some hends)⟩

theorem run_headersSent_iff (options : Http2Options) (s : List ConnectionStep) (id : StreamId) :
    (run options s).HeadersSent id ↔ headersOn id (run options s).ownFrames ≠ [] := by
  constructor
  · rintro ⟨frame, hown | hmanager, hid⟩
    · exact List.ne_nil_of_mem (mem_headersOn.mpr ⟨frame, hown, hid, rfl⟩)
    · obtain ⟨ops, hops⟩ := run_managed options s
      rw [hops] at hmanager
      exact absurd (Manager.run_sendFrame ops hmanager) Bool.false_ne_true
  · intro hne
    obtain ⟨ends, hends⟩ := List.exists_mem_of_ne_nil _ hne
    obtain ⟨frame, hmem, hid, -⟩ := mem_headersOn.mp hends
    exact ⟨frame, .inl hmem, hid⟩

/-- END_STREAM goes out on HEADERS or on DATA. -/
theorem run_endSent_iff (options : Http2Options) (s : List ConnectionStep) (id : StreamId) :
    (run options s).EndSent id ↔
      true ∈ headersOn id (run options s).ownFrames ∨ ∃ chunk ∈ chunksOn id (run options s).manager.effects, chunk.2 = true := by
  constructor
  · rintro ⟨frame, hown | hmanager, hends⟩
    · have hisOwn := run_isOwn options s frame hown
      cases frame with
      | headers frame =>
          simp only [Frame.endsStream, Bool.and_eq_true, decide_eq_true_eq] at hends
          exact .inl (mem_headersOn.mpr ⟨frame, hown, hends⟩)
      | _ => exact absurd hends (by simp [Frame.endsStream, isOwn] at hisOwn ⊢)
    · obtain ⟨ops, hops⟩ := run_managed options s
      have hbesides := Manager.run_sendFrame ops (hops ▸ hmanager)
      cases frame with
      | data frame =>
          simp only [Frame.endsStream, Bool.and_eq_true, decide_eq_true_eq] at hends
          refine .inr ⟨(frame.payload, frame.flags &&& 0x1 ≠ 0), List.mem_filterMap.mpr ⟨_, hmanager, ?_⟩, decide_eq_true hends.2⟩
          exact if_pos hends.1
      | headers frame => exact absurd hbesides Bool.false_ne_true
      | _ => exact absurd hends (by simp [Frame.endsStream])
  · rintro (hheaders | ⟨chunk, hmem, hmarked⟩)
    · obtain ⟨frame, hmem, hid, hends⟩ := mem_headersOn.mp hheaders
      exact ⟨.headers frame, .inl hmem, by simp [Frame.endsStream, hid, hends]⟩
    · obtain ⟨effect, heffect, hchunk⟩ := List.mem_filterMap.mp hmem
      rw [Effect.chunkOn.eq_def] at hchunk
      split at hchunk
      · rename_i frame
        split at hchunk
        · rename_i hid
          obtain rfl := Option.some.inj hchunk
          exact ⟨.data frame, .inr heffect, by simpa [Frame.endsStream, hid] using hmarked⟩
        · exact absurd hchunk (by simp)
      · exact absurd hchunk (by simp)

/-! ### What becomes of a request -/

/-- How much of a request has gone out: the HEADERS on its stream, and its body. -/
inductive Upload : List Bool → SendBuffer UInt8 → Prop
  | unsent : Upload [] .empty
  | whole : Upload [true] .empty
  | body {b : SendBuffer UInt8} (hclosed : b.Closed) (hending : b.Ending) : Upload [false] b

theorem Upload.sends {headers : List Bool} {b b' : SendBuffer UInt8} (h : Upload headers b) (hsends : b.Sends b') :
    Upload headers b' := by
  cases h with
  | unsent => exact hsends.of_empty ▸ .unsent
  | whole => exact hsends.of_empty ▸ .whole
  | body hclosed hending => exact .body (hsends.closed hclosed) (hsends.ending hending)

theorem Upload.marked_iff {headers : List Bool} {b : SendBuffer UInt8} (h : Upload headers b) :
    (true ∈ headers ∨ ∃ chunk ∈ b.sent, chunk.2 = true) ↔ headers ≠ [] ∧ b.queue = [] := by
  cases h with
  | unsent => simp [SendBuffer.empty]
  | whole => simp [SendBuffer.empty]
  | body hclosed hending =>
      constructor
      · rintro (hends | hmarked)
        · simp at hends
        · exact ⟨by simp, hclosed.drained hmarked⟩
      · exact fun hdrained => .inr (hending.marked hdrained.2)

/-- Every stream the client has opened carries a request, and nothing has gone out on the ids to come. -/
structure Uploads (c : Http2Connection) : Prop where
  fresh : ∀ id, c.manager.nextStreamId ≤ id → headersOn id c.ownFrames = [] ∧ Manager.Tracks [] id c.manager .empty
  client : ∀ id, c.manager.HasClient id → ∃ b, Manager.Tracks [] id c.manager b ∧ Upload (headersOn id c.ownFrames) b

theorem asks_sendData {s : ConnectionStep} {data : Bytes} {endStream : Bool} (h : .sendData id data endStream ∈ c.asks s) :
    c.Opens s ∧ id = c.manager.nextStreamId := by
  rcases asks_cases h with ⟨frame, -, hop⟩ | ⟨err, hop⟩ | ⟨hopens, hop | ⟨call, hmem⟩⟩
  · exact absurd hop (by simp)
  · exact absurd hop (by simp)
  · exact absurd hop (by simp)
  · rcases executorAsks_cases hmem with hop | hop
    · exact absurd hop (by simp)
    · exact ⟨hopens, (ManagerOp.sendData.inj hop).1⟩

theorem headersOn_headers (id : StreamId) (frame : HeadersFrame) :
    headersOn id [.headers frame] = if frame.streamId = id then [frame.endStream] else [] := by
  by_cases hid : frame.streamId = id
  · rw [if_pos hid]
    exact List.filterMap_cons_some (if_pos hid)
  · rw [if_neg hid]
    exact List.filterMap_cons_none (if_neg hid)

/-- A step sends HEADERS only on the stream it opens. -/
theorem sends_headersOn {s : ConnectionStep} (h : ¬ (c.Opens s ∧ id = c.manager.nextStreamId)) :
    headersOn id (c.sends s) = [] := by
  cases s with
  | resume call =>
      simp only [sends, executorSends]
      split
      · rename_i hgranted
        split
        · rfl
        · split
          · rfl
          · rename_i payload hpayload
            have hother : c.manager.nextStreamId ≠ id := fun hid => h ⟨⟨call, rfl, hgranted⟩, hid.symm⟩
            exact (headersOn_headers id _).trans (if_neg hother)
      · rfl
  | goaway lastStreamId errorCode debugData => rfl
  | close =>
      simp only [sends]
      split <;> rfl
  | ping promise data =>
      simp only [sends]
      split <;> rfl
  | _ => rfl

theorem step_hasClient {s : ConnectionStep} (h : (c.step s).manager.HasClient id) :
    c.manager.HasClient id ∨ c.Opens s ∧ id = c.manager.nextStreamId := by
  rw [step_manager] at h
  by_cases hopens : c.Opens s
  · obtain ⟨call, rfl, hgranted⟩ := hopens
    have hasks : c.asks (.resume call) = .openStream :: c.executorAsks c.manager.nextStreamId call := if_pos hgranted
    have hrest : .openStream ∉ c.executorAsks c.manager.nextStreamId call := fun hmem => by
      rcases executorAsks_cases hmem with hop | hop <;> exact absurd hop (by simp)
    rw [hasks] at h
    have hopened := Manager.hasClient_of_steps hrest h
    by_cases hid : c.manager.nextStreamId = id
    · exact .inr ⟨⟨call, rfl, hgranted⟩, hid.symm⟩
    · exact .inl (Manager.hasClient_of_step (fun _ => hid) hopened)
  · exact .inl (Manager.hasClient_of_steps (fun hmem => hopens (asks_openStream hmem)) h)

theorem nextStreamId_lt_of_opens {s : ConnectionStep} (h : c.Opens s) :
    c.manager.nextStreamId < (c.step s).manager.nextStreamId := by
  obtain ⟨call, rfl, hgranted⟩ := h
  have hasks : c.asks (.resume call) = .openStream :: c.executorAsks c.manager.nextStreamId call := if_pos hgranted
  rw [step_manager, hasks]
  have hopened : c.manager.nextStreamId < (c.manager.step .openStream).nextStreamId := Nat.lt_add_of_pos_right (by decide)
  exact hopened.trans_le (Manager.steps_nextStreamId_le (c.manager.step .openStream) _)

theorem run_hasClient_lt (options : Http2Options) (s : List ConnectionStep) (h : (run options s).manager.HasClient id) :
    id < (run options s).manager.nextStreamId := by
  obtain ⟨ops, hops⟩ := run_managed options s
  rw [hops] at h ⊢
  obtain ⟨st, hget, hclient⟩ := h
  have hlt := Manager.run_client_id_lt ops st (Table.mem_of_get hget) hclient
  rwa [Table.key_of_get hget] at hlt

theorem Uploads.step_fresh (h : c.Uploads) (s : ConnectionStep) (hid : (c.step s).manager.nextStreamId ≤ id) :
    headersOn id (c.step s).ownFrames = [] ∧ Manager.Tracks [] id (c.step s).manager .empty := by
  have hkept : ¬ (c.Opens s ∧ id = c.manager.nextStreamId) := by
    rintro ⟨hopens, rfl⟩
    exact Nat.not_le_of_gt (nextStreamId_lt_of_opens hopens) hid
  have hle : c.manager.nextStreamId ≤ (c.step s).manager.nextStreamId := (c.step_advances s).nextStreamId_le
  obtain ⟨hheaders, htracks⟩ := h.fresh id (hle.trans hid)
  constructor
  · rw [step_ownFrames, headersOn_append, hheaders, sends_headersOn hkept, List.append_nil]
  · rw [step_manager] at hid ⊢
    exact Manager.steps_tracks_empty htracks hid fun data endStream hmem => hkept (asks_sendData hmem)

theorem Uploads.step_client (h : c.Uploads) (s : ConnectionStep) (hclient : c.manager.HasClient id)
    (hid : id < c.manager.nextStreamId) (hafter : (c.step s).manager.HasClient id) :
    ∃ b, Manager.Tracks [] id (c.step s).manager b ∧ Upload (headersOn id (c.step s).ownFrames) b := by
  have hkept : ¬ (c.Opens s ∧ id = c.manager.nextStreamId) := fun hopens => hid.ne hopens.2
  obtain ⟨b, htracks, hupload⟩ := h.client id hclient
  rw [step_ownFrames, headersOn_append, sends_headersOn hkept, List.append_nil]
  rw [step_manager] at hafter ⊢
  obtain ⟨b', htracks', hupload'⟩ := Manager.steps_tracks (P := fun _ m b => m.HasClient id → Upload (headersOn id c.ownFrames) b)
    hid htracks (fun _ => hupload) (c.asks s)
    (by
      intro pre op m b b' hmem hbefore hb hsends hop
      rw [Manager.wrote_eq m b fun data endStream heq => hkept (asks_sendData (heq ▸ hmem))] at hsends
      exact (hb (hbefore hop)).sends hsends)
    (fun pre op m b hmem hgone hb hop => absurd hop hgone)
  exact ⟨b', htracks', hupload' hafter⟩

theorem body_ne_nil {req : Http2Request} (h : bodiless req = false) : req.body.getD [] ≠ [] := by
  intro hnil
  cases hbody : req.body with
  | none => exact absurd h (by simp [bodiless, hbody])
  | some data =>
      rw [hbody, Option.getD_some] at hnil
      exact absurd h (by simp [bodiless, hbody, hnil])

/-- The upload of the stream a step opens. -/
theorem Uploads.step_opened (h : c.Uploads) {call : RequestCall} (hgranted : call ∈ c.granted)
    (hafter : (c.step (.resume call)).manager.HasClient c.manager.nextStreamId) :
    ∃ b, Manager.Tracks [] c.manager.nextStreamId (c.step (.resume call)).manager b ∧
      Upload (headersOn c.manager.nextStreamId (c.step (.resume call)).ownFrames) b := by
  obtain ⟨hheaders, htracks⟩ := h.fresh _ (Nat.le_refl _)
  have hopened := Manager.openStream_tracks htracks
  have hasks : c.asks (.resume call) = .openStream :: c.executorAsks c.manager.nextStreamId call := if_pos hgranted
  have hsends : c.sends (.resume call) = c.executorSends c.manager.nextStreamId call := if_pos hgranted
  rw [step_manager, hasks] at hafter ⊢
  rw [step_ownFrames, hsends, headersOn_append, hheaders, List.nil_append]
  rw [executorAsks] at hafter ⊢
  rw [executorSends]
  split at hafter
  · rename_i hclosing
    rw [if_pos hclosing, if_pos hclosing]
    exact ⟨.empty, hopened, .unsent⟩
  · rename_i hclosing
    rw [if_neg hclosing, if_neg hclosing]
    have hexpected := Manager.expectResponse_tracks hopened c.manager.nextStreamId call.promise call.promise
    cases hblock : c.requestBlock call.req with
    | error e => exact ⟨.empty, hexpected, .unsent⟩
    | ok payload =>
        have hsent : headersOn c.manager.nextStreamId
            [.headers (requestHeadersFrame c.manager.nextStreamId (bodiless call.req) payload)] = [bodiless call.req] :=
          (headersOn_headers _ _).trans (if_pos rfl)
        rw [hblock] at hafter
        dsimp only at hafter ⊢
        rw [hsent]
        cases hbody : bodiless call.req with
        | true => exact ⟨.empty, hexpected, .whole⟩
        | false =>
            rw [hbody] at hafter
            obtain ⟨b, hsent, hclosed, hending⟩ := Manager.sendData_final hexpected SendBuffer.unended_empty
              fun st hget hclient => .inl (body_ne_nil hbody)
            exact ⟨b, hsent, .body hclosed (hending hafter)⟩

theorem run_uploads (options : Http2Options) (s : List ConnectionStep) : (run options s).Uploads := by
  induction s using List.reverseRecOn with
  | nil =>
      have hnothing : ∀ id, Manager.Tracks [] id (run options []).manager .empty := fun id => ⟨⟨[], rfl, rfl⟩, rfl⟩
      refine ⟨fun id _ => ⟨rfl, hnothing id⟩, fun id hclient => ?_⟩
      obtain ⟨st, hget, -⟩ := hclient
      have hnone : (run options []).manager.streams.get id = none := Table.get_empty id
      exact absurd (hnone.symm.trans hget) (by simp)
  | append_singleton s a ih =>
      rw [run_concat]
      refine ⟨fun id => ih.step_fresh a, fun id hafter => ?_⟩
      rcases step_hasClient hafter with hclient | ⟨⟨call, rfl, hgranted⟩, rfl⟩
      · exact ih.step_client a hclient (run_hasClient_lt options s hclient) hafter
      · exact ih.step_opened hgranted hafter

theorem run_endSent_client_iff (options : Http2Options) (s : List ConnectionStep) (hclient : (run options s).manager.HasClient id) :
    (run options s).EndSent id ↔ (run options s).HeadersSent id ∧ ((run options s).manager.queueOf id).1 = [] := by
  obtain ⟨b, htracks, hupload⟩ := (run_uploads options s).client id hclient
  obtain ⟨new, hnew, hsent⟩ := htracks.sent
  rw [List.nil_append] at hnew
  rw [run_endSent_iff, run_headersSent_iff, hnew, hsent, htracks.queue]
  exact hupload.marked_iff

/-- A stream leaves the table only in a step that sends nothing. -/
theorem receiveFrame_chunksOn {frame : Frame} (hbefore : id ∈ c.manager.streams.keys)
    (hgone : id ∉ (c.receiveFrame frame).manager.streams.keys) :
    chunksOn id (c.receiveFrame frame).manager.effects = chunksOn id c.manager.effects := by
  have hmanager : (c.receiveFrame frame).manager = c.manager.steps (c.asks (.receiveFrame frame)) :=
    step_manager c (.receiveFrame frame)
  rw [hmanager] at hgone ⊢
  apply Manager.steps_chunksOn
  intro op hop hscope
  rcases asks_cases hop with ⟨frame', hframe, rfl⟩ | ⟨err, rfl⟩ | ⟨⟨call, hresume, -⟩, -⟩
  · obtain rfl := ConnectionStep.receiveFrame.inj hframe
    -- a frame that makes the manager send does not fail, so it is all the step asks for
    have hfine : (c.manager.dispatch frame).2 = none := by
      cases frame with
      | settings | windowUpdate => rfl
      | _ => exact absurd hscope (by simp [ManagerOp.scope])
    have hasks : c.asks (.receiveFrame frame) = [.dispatch frame] := by
      simp only [asks] at hop ⊢
      split at hop
      · rename_i hreading
        rw [if_pos hreading, hfine]
      · exact absurd hop List.not_mem_nil
    rw [hasks] at hgone
    exact hgone ((Manager.dispatch_sends_keys c.manager hscope).symm ▸ hbefore)
  · exact absurd hscope (by simp [ManagerOp.scope])
  · exact absurd hresume (by simp)

/-- With a frame the response on a client stream completes, and the stream leaves the table. -/
structure Completes (c : Http2Connection) (frame : Frame) (st : ManagedStream) : Prop where
  present : c.manager.streams.get st.id = some st
  client : st.isPushPromise = false
  answered : ∃ promise response, st.resolve = some promise ∧
    .manager (.resolve promise response) ∈ c.newEffects (c.receiveFrame frame)
  gone : st.id ∉ (c.receiveFrame frame).manager.streams.keys

/-- The stream is over for the peer. -/
def OverAtPeer (c : Http2Connection) (id : StreamId) : Prop := c.EndSent id ∨ c.ResetSent id

theorem run_overAtPeer_iff (options : Http2Options) (s : List ConnectionStep) (id : StreamId) :
    (run options s).OverAtPeer id ↔ (run options s).EndSent id := or_iff_left (run_not_resetSent options s id)

end Http2Connection

open Http2Connection in
/-- A stream whose response completes is over for the peer exactly if all of the request had gone out. -/
theorem completed_over_iff (options : Http2Options) (before : List ConnectionStep) (frame : Frame) (st : ManagedStream)
    (h : Completes (run options before) frame st) :
    (run options (before ++ [.receiveFrame frame])).OverAtPeer st.id ↔
      (run options before).HeadersSent st.id ∧ st.sendQueue = [] := by
  have hchunks := receiveFrame_chunksOn (Table.mem_keys_iff.mpr ⟨st, h.present⟩) h.gone
  have hown : (run options (before ++ [.receiveFrame frame])).ownFrames = (run options before).ownFrames := by
    rw [run_concat, step_ownFrames]
    exact List.append_nil _
  have hqueue : ((run options before).manager.queueOf st.id).1 = st.sendQueue :=
    congrArg Prod.fst (Manager.queueOf_of_get h.present)
  -- the frame that completes the response makes nothing go out, so the question is what had gone out before
  rw [← hqueue, ← run_endSent_client_iff options before ⟨st, h.present, h.client⟩, run_overAtPeer_iff, run_endSent_iff,
    run_endSent_iff, hown, run_concat]
  dsimp only [step]
  rw [hchunks]

/-- A request of one octet while the peer allows none. -/
def blockedUpload : List ConnectionStep :=
  [ .receiveFrame (.settings { flags := 0, streamId := 0, ack := false, settings := SettingsMap.empty.set 0x4 0 }),
    .request ⟨⟨"POST", "https", "a", "/", .empty, some [0x61]⟩, 0⟩,
    .resume ⟨⟨"POST", "https", "a", "/", .empty, some [0x61]⟩, 0⟩ ]

/-- The whole answer, on the HEADERS. -/
def earlyAnswer : Frame := .headers ⟨0x5, 1, true, true, false, [0x88]⟩

def blockedStream : ManagedStream :=
  { ManagedStream.create 1 ⟨0, 0⟩ ⟨65535, 65535⟩ false with
    sendQueue := [0x61], sendQueueEndStream := true, resolve := some 0, reject := some 0 }

namespace Http2Connection

theorem earlyAnswer_completes : Completes (run {} blockedUpload) earlyAnswer blockedStream where
  present := by decide +kernel
  client := rfl
  answered := ⟨0, ⟨200, (Table.empty : HeaderMap).set ("status", "200"), []⟩, rfl, by decide +kernel⟩
  gone := by decide +kernel

end Http2Connection

/-- A request without a body, which ends its stream with the HEADERS. -/
def bodilessRequest : List ConnectionStep := [.request plainCall, .resume plainCall]

def bodilessStream : ManagedStream :=
  { ManagedStream.create 1 ⟨65535, 65535⟩ ⟨65535, 65535⟩ false with resolve := some 1, reject := some 1 }

namespace Http2Connection

theorem earlyAnswer_completes_bodiless : Completes (run {} bodilessRequest) earlyAnswer bodilessStream where
  present := by decide +kernel
  client := rfl
  answered := ⟨1, ⟨200, (Table.empty : HeaderMap).set ("status", "200"), []⟩, rfl, by decide +kernel⟩
  gone := by decide +kernel

end Http2Connection

open Http2Connection in
/-- The answer ends the exchange of the request without a body, and not that of the upload. -/
theorem completed_over_iff_blocked :
    (run {} (bodilessRequest ++ [.receiveFrame earlyAnswer])).OverAtPeer 1 ∧
      ¬ (run {} (blockedUpload ++ [.receiveFrame earlyAnswer])).OverAtPeer 1 := by
  constructor
  · apply (completed_over_iff {} bodilessRequest earlyAnswer bodilessStream earlyAnswer_completes_bodiless).mpr
    rw [run_headersSent_iff]
    decide +kernel
  · intro hover
    have hqueue := ((completed_over_iff {} blockedUpload earlyAnswer blockedStream earlyAnswer_completes).mp hover).2
    exact absurd hqueue (by decide)

open Http2Connection in
/-- The answer comes before the body can go out: the slot is free again, and the peer keeps waiting for the body. -/
theorem early_answer_leaves_stream_open :
    Completes (run {} blockedUpload) earlyAnswer blockedStream ∧
      ¬ (run {} (blockedUpload ++ [.receiveFrame earlyAnswer])).OverAtPeer 1 ∧
      (run {} blockedUpload).activeClientStreams.keys = [1] ∧
      (run {} (blockedUpload ++ [.receiveFrame earlyAnswer])).activeClientStreams.keys = [] := by
  refine ⟨earlyAnswer_completes, ?_, by decide +kernel, by decide +kernel⟩
  rw [run_overAtPeer_iff, run_endSent_iff]
  decide +kernel

end BrowsercoreHttp2
