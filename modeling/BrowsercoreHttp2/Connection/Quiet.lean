import BrowsercoreHttp2.Connection.RequestFrames
import BrowsercoreHttp2.Connection.SettingsAcks
import BrowsercoreHttp2.Connection.Settlement

/-!
# What a closed connection still does

Once the connection is closing no stream opens on the wire any more. Once it is closed nothing is queued and
no stream holds a promise, so all that still goes out is the GOAWAY of every further `goaway()` and what
answers the one frame that the read loop may be waiting for.
-/

namespace BrowsercoreHttp2

/-- The effect calls a callback of a stream. -/
def Effect.settles : Effect → Bool
  | .resolve _ _ | .reject _ _ => true
  | _ => false

theorem Effect.settles_of_besides {announced : Option Event} {effect : Effect} (h : effect.besides announced = true) :
    effect.settles = false := by
  cases effect with
  | resolve | reject => exact absurd h Bool.false_ne_true
  | _ => rfl

def Frame.isGoaway : Frame → Bool
  | .goaway _ => true
  | _ => false

namespace Manager

variable {m m' : Manager}

/-! ### Nothing queued -/

def Unqueued (m : Manager) : Prop := ∀ id, (m.queueOf id).1 = []

theorem sends_empty {b b' : SendBuffer UInt8} (h : b.Sends b') (hb : b.queue = [] ∧ b.sent = []) : b'.queue = [] ∧ b'.sent = [] := by
  refine SendBuffer.Sends.preserves (P := fun b => b.queue = [] ∧ b.sent = []) (fun b b' hone hb => ?_) h hb
  cases hone with
  | chunk n hpos hqueue =>
      rw [hb.1, List.length_nil] at hqueue
      omega

theorem Unqueued.chunkless (h : m.Unqueued) {op : ManagerOp} (hdata : ∀ id data endStream, op ≠ .sendData id data endStream)
    (hopen : op ≠ .openStream) (id : StreamId) :
    (((m.step op).queueOf id).1 = []) ∧ ∃ new, (m.step op).effects = m.effects ++ new ∧ chunksOn id new = [] := by
  have hbuffer : Tracks m.effects id m ⟨(m.queueOf id).1, (m.queueOf id).2, []⟩ := ⟨⟨[], (List.append_nil _).symm, rfl⟩, rfl⟩
  have hempty : (⟨(m.queueOf id).1, (m.queueOf id).2, []⟩ : SendBuffer UInt8).queue = [] := h id
  have hwrote : m.wrote id ⟨(m.queueOf id).1, (m.queueOf id).2, []⟩ op = ⟨(m.queueOf id).1, (m.queueOf id).2, []⟩ :=
    wrote_eq m _ fun data endStream => hdata id data endStream
  rcases step_tracks hbuffer fun hop => absurd hop hopen with ⟨b', hsends, htracks⟩ | ⟨htracks, -⟩
  · rw [hwrote] at hsends
    obtain ⟨hqueue, hsent⟩ := sends_empty hsends ⟨hempty, rfl⟩
    obtain ⟨new, hnew, hchunks⟩ := htracks.sent
    refine ⟨?_, new, hnew, hchunks.trans hsent⟩
    rw [htracks.queue]
    exact hqueue
  · obtain ⟨new, hnew, hchunks⟩ := htracks.sent
    refine ⟨?_, new, hnew, hchunks⟩
    rw [htracks.queue]
    rfl

/-- As long as no data is handed in, nothing is queued, and all that goes out are answers. -/
theorem Unqueued.step (h : m.Unqueued) {op : ManagerOp} (hdata : ∀ id data endStream, op ≠ .sendData id data endStream) :
    (m.step op).Unqueued ∧ (m.step op).sent = m.sent ++ m.replies op := by
  by_cases hopen : op = .openStream
  · rw [hopen]
    refine ⟨fun id => ?_, (List.append_nil _).symm⟩
    by_cases hid : id = m.nextStreamId
    · have hget := Http2Connection.openStream_get m
      rw [hid, Manager.step, queueOf_of_get hget]
      rfl
    · have hget : m.openStream.1.streams.get id = m.streams.get id := Table.get_set_ne m.streams fun heq => hid heq.symm
      rw [Manager.step, queueOf, hget]
      exact h id
  · refine ⟨fun id => (h.chunkless hdata hopen id).1, ?_⟩
    obtain ⟨chunks, hsent, -, -⟩ := m.step_sent op
    cases chunks with
    | nil =>
        rw [hsent, List.map_nil, List.append_nil]
    | cons chunk chunks =>
        obtain ⟨-, new, hnew, hnone⟩ := h.chunkless hdata hopen chunk.1
        have hon : (m.step op).sent.filterMap (Frame.chunkOn chunk.1) = m.sent.filterMap (Frame.chunkOn chunk.1) := by
          rw [filterMap_chunkOn, filterMap_chunkOn, hnew, chunksOn_append, hnone, List.append_nil]
        have hchunk : (dataFrame chunk.1 chunk.2).chunkOn chunk.1 ≠ none := by
          rw [dataFrame, Frame.chunkOn, if_pos rfl]
          exact Option.some_ne_none _
        rw [hsent, List.append_assoc, List.filterMap_append, List.append_right_eq_self, List.filterMap_eq_nil_iff] at hon
        exact absurd (hon _ (List.mem_append_left _ List.mem_cons_self)) hchunk

theorem abortAll_unqueued (m : Manager) (error : JsError) : (m.abortAll error).Unqueued := fun _ => rfl

/-! ### Nothing to settle -/

theorem TableMove.noCallbacks {op : ManagerOp} (h : TableMove op m m') (hnone : m.NoCallbacks) :
    m'.NoCallbacks ∧ ∃ new, m'.effects = m.effects ++ new ∧ ∀ effect ∈ new, effect.settles = false := by
  have hnothing : m.effects = m.effects ++ [] := (List.append_nil _).symm
  cases h with
  | aside new hstreams heffects hnew =>
      refine ⟨fun st hst => hnone st (hstreams ▸ hst), new, heffects, fun effect hmem => ?_⟩
      exact Effect.settles_of_besides (hnew effect hmem)
  | @written st st' hget hid hcallbacks hended =>
      refine ⟨fun w hw => ?_, [], hnothing, fun _ hmem => absurd hmem List.not_mem_nil⟩
      rcases Table.mem_set hw with heq | ⟨hold, -⟩
      · rw [heq, hcallbacks]
        exact hnone st (Table.mem_of_get hget)
      · exact hnone w hold
  | @settled st hget =>
      rcases maybeResolveResponse_cases m st with hsame | ⟨resolve, hresolve, -, -⟩
      · rw [hsame]
        exact ⟨hnone, [], hnothing, fun _ hmem => absurd hmem List.not_mem_nil⟩
      · have hcallback := (Prod.mk.inj (hnone st (Table.mem_of_get hget))).1
        rw [hresolve] at hcallback
        exact absurd hcallback (Option.some_ne_none resolve)
  | @rejected st st' hget hid hcallbacks err =>
      refine ⟨fun w hw => ?_, _, rejectStream_effects m st' err, fun effect hmem => ?_⟩
      · rw [rejectStream_streams] at hw
        exact hnone w (Table.mem_delete.mp hw).1
      · have hreject : st'.reject = none := (Prod.mk.inj (hcallbacks.trans (hnone st (Table.mem_of_get hget)))).2
        rw [rejection, hreject] at hmem
        rw [List.mem_singleton.mp hmem]
        rfl

/-- A manager whose streams hold no promise settles none. -/
theorem NoCallbacks.settles (h : m.NoCallbacks) {op : ManagerOp} (hop : op.scope ≠ .expects) :
    ∃ new, (m.step op).effects = m.effects ++ new ∧ ∀ effect ∈ new, effect.settles = false := by
  have hnothing : m.effects = m.effects ++ [] := (List.append_nil _).symm
  have hmoves : ∀ {m' : Manager}, TableMoves op m m' →
      m'.NoCallbacks ∧ ∃ new, m'.effects = m.effects ++ new ∧ ∀ effect ∈ new, effect.settles = false := by
    intro m' hmoves
    induction hmoves with
    | refl => exact ⟨h, [], hnothing, fun _ hmem => absurd hmem List.not_mem_nil⟩
    | tail _ hmove ih =>
        obtain ⟨hnone, new, hnew, hquiet⟩ := ih
        obtain ⟨hnone', new', hnew', hquiet'⟩ := hmove.noCallbacks hnone
        exact ⟨hnone', new ++ new', by rw [hnew', hnew, List.append_assoc], List.forall_mem_append.mpr ⟨hquiet, hquiet'⟩⟩
  cases hreplaces : m.replaces op with
  | none => exact (hmoves (step_tableMoves hreplaces)).2
  | some id =>
      cases op with
      | openStream => exact ⟨[], hnothing, fun _ hmem => absurd hmem List.not_mem_nil⟩
      | expectResponse streamId resolve reject => exact absurd rfl hop
      | dispatch frame =>
          cases frame with
          | pushPromise frame =>
              rcases handlePushPromise_announces m frame with hsame | ⟨id, headers, hnew⟩
              · exact ⟨[], hsame.trans hnothing, fun _ hmem => absurd hmem List.not_mem_nil⟩
              · exact ⟨_, hnew, fun effect hmem => List.mem_singleton.mp hmem ▸ rfl⟩
          | _ => exact absurd hreplaces.symm (Option.some_ne_none _)
      | _ => exact absurd hreplaces.symm (Option.some_ne_none _)

end Manager

namespace Http2Connection

variable {c c' : Http2Connection}

/-! ### Closed connections -/

/-- A closed connection asks its manager for nothing but to open the stream of a call that has come through, and to
handle the frame that the read loop gets. -/
theorem step_manager_closed (hclosed : c.closed = true) (s : ConnectionStep) :
    (c.step s).manager = c.manager ∧ c.answersTo s = [] ∨
      ∃ op, (c.step s).manager = c.manager.step op ∧ c.answersTo s = c.manager.replies op ∧
        (∀ id data endStream, op ≠ .sendData id data endStream) ∧ op.scope ≠ .expects := by
  have hnothing : c.asks s = [] → (c.step s).manager = c.manager := by
    intro hasks
    rw [step_manager, hasks]
    rfl
  have hone : ∀ op, c.asks s = [op] → (c.step s).manager = c.manager.step op := by
    intro op hasks
    rw [step_manager, hasks]
    rfl
  cases s with
  | resume call =>
      by_cases hcall : call ∈ c.granted
      · refine .inr ⟨.openStream, hone _ ?_, rfl, by simp, by decide⟩
        rw [asks, if_pos hcall, executorAsks, hclosed, Bool.or_true, if_pos rfl]
      · exact .inl ⟨hnothing (if_neg hcall), rfl⟩
  | close => exact .inl ⟨hnothing (if_pos hclosed), rfl⟩
  | receiveFrame frame =>
      cases hreading : c.reading with
      | false =>
          refine .inl ⟨hnothing ?_, ?_⟩
          · rw [asks, hreading, if_neg Bool.false_ne_true]
          · rw [answersTo, hreading, if_neg Bool.false_ne_true]
      | true =>
          refine .inr ⟨.dispatch frame, hone _ ?_, ?_, by simp, ?_⟩
          · rw [asks, hreading, if_pos rfl, hclosed]
            split <;> rfl
          · rw [answersTo, hreading, if_pos rfl]
            rfl
          · cases frame <;> simp [ManagerOp.scope]
  | readError err =>
      refine .inl ⟨hnothing ?_, rfl⟩
      rw [asks, hclosed, Bool.not_true, Bool.and_false, if_neg Bool.false_ne_true]
  | _ => exact .inl ⟨hnothing rfl, rfl⟩

/-- A closed connection has nothing to send. -/
def Unqueued (c : Http2Connection) : Prop := c.closed = true → c.manager.Unqueued

theorem Unqueued.manage (h : c.Unqueued) {op : ManagerOp} (hdata : ∀ id data endStream, op ≠ .sendData id data endStream) :
    (c.manage op).Unqueued := by
  intro hclosed
  have hclosed' : c.closed = true := (c.managed_hears (c.manager.step op)).closed.symm.trans hclosed
  rw [Http2Connection.manage, managed_manager]
  exact ((h hclosed').step hdata).1

theorem Unqueued.same (h : c.Unqueued) (hclosed : c'.closed = c.closed) (hmanager : c'.manager = c.manager) : c'.Unqueued := by
  intro hclosed'
  rw [hmanager]
  exact h (hclosed.symm.trans hclosed')

theorem TornDown.unqueued {err : JsError} (h : TornDown c c' err) : c'.Unqueued := by
  intro _
  rw [h.manager]
  exact Manager.abortAll_unqueued _ err

theorem Unqueued.moves {s : ConnectionStep} (h : c.Unqueued) (hmoves : Moves c s c') : c'.Unqueued := by
  cases hmoves with
  | aside haside => exact h.same haside.closed haside.manager
  | requested call hopen => exact h.same (c.acquireSlot_closed call) (c.acquireSlot_manager call)
  | woke call hcall => exact h.same (acquireSlot_closed _ call) (acquireSlot_manager _ call)
  | resumed call hcall =>
      intro hclosed
      have hshut : c.closed = true := (c.resume_closed call).symm.trans hclosed
      rcases step_manager_closed hshut (.resume call) with ⟨hmanager, -⟩ | ⟨op, hmanager, -, hdata, -⟩
      · exact hmanager.symm ▸ h hshut
      · exact hmanager.symm ▸ ((h hshut).step hdata).1
  | leaving lastStreamId errorCode debugData => exact h.same rfl rfl
  | tornDown hopen htorn => exact htorn.unqueued
  | received frame hreading haside => exact (h.manage fun id data endStream => by simp).same haside.closed haside.manager
  | failed frame hreading hopen htorn => exact htorn.unqueued

theorem run_unqueued (options : Http2Options) (s : List ConnectionStep) : (run options s).Unqueued := by
  induction s using List.reverseRecOn with
  | nil => exact fun hclosed => absurd hclosed (by simp)
  | append_singleton s a ih =>
      rw [run_concat]
      exact ih.moves (step_moves _ a)

/-- The GOAWAY of a call of `goaway()`. -/
def farewell : ConnectionStep → Option Frame
  | .goaway lastStreamId errorCode debugData => some (goawayFrame lastStreamId errorCode debugData)
  | _ => none

/-- A closed connection sends what `goaway()` says, and what answers a frame. -/
theorem step_outbound_closed (hclosed : c.closed = true) (hclosing : c.closing = true) (h : c.manager.Unqueued) (s : ConnectionStep) :
    (c.step s).outbound = c.outbound ++ (farewell s).toList ++ c.answersTo s := by
  obtain ⟨chunks, -, hemits⟩ := c.step_sends s
  have hown : c.sends s = (farewell s).toList := by
    cases s with
    | resume call =>
        rw [sends, executorSends, hclosing, Bool.true_or, if_pos rfl]
        split <;> rfl
    | close => exact if_pos hclosed
    | ping promise data => exact if_pos hclosed
    | _ => rfl
  -- the manager has only sent what answers the frame
  have hsent : (c.step s).manager.sent = c.manager.sent ++ c.answersTo s := by
    rcases step_manager_closed hclosed s with ⟨hmanager, hanswers⟩ | ⟨op, hmanager, hanswers, hdata, -⟩
    · rw [hmanager, hanswers, List.append_nil]
    · rw [hmanager, hanswers]
      exact (h.step hdata).2
  have hnew := List.append_cancel_left (hemits.manager.symm.trans hsent)
  rw [hemits.outbound, hnew, hown]

theorem answersTo_not_goaway (c : Http2Connection) (s : ConnectionStep) : ∀ frame ∈ c.answersTo s, frame.isGoaway = false := by
  intro frame hframe
  cases s with
  | receiveFrame received =>
      simp only [answersTo] at hframe
      split at hframe
      · have hanswer := c.manager.replies_isAnswer (.dispatch received) frame hframe
        cases frame with
        | goaway => exact absurd hanswer Bool.false_ne_true
        | _ => rfl
      · exact absurd hframe List.not_mem_nil
  | _ => exact absurd hframe List.not_mem_nil

theorem receiveFrame_ends (hclosed : c.closed = true) (frame : Frame) : (c.receiveFrame frame).reading = false := by
  have hshut : (c.manage (.dispatch frame)).closed = true := (c.managed_hears (c.manager.step (.dispatch frame))).closed.trans hclosed
  rw [receiveFrame]
  split
  · split
    · rename_i m hdispatch
      have hmanaged : (c.managed m).closed = true := (c.managed_hears m).closed.trans hclosed
      show (!(c.managed m).closed) = false
      rw [hmanaged]
      rfl
    · rfl
  · rename_i hreading
    exact Bool.eq_false_iff.mpr hreading

theorem sends_closing (hclosing : c.closing = true) (s : ConnectionStep) : (c.sends s).filterMap headersId = [] := by
  cases s with
  | resume call =>
      rw [sends, executorSends, hclosing, Bool.true_or, if_pos rfl]
      split <;> rfl
  | close =>
      rw [sends]
      split <;> rfl
  | ping promise data =>
      rw [sends]
      split <;> rfl
  | _ => rfl

/-- While the connection is closing no HEADERS go out. -/
theorem run_headers_closing (options : Http2Options) (s : List ConnectionStep) (hclosing : (run options s).closing = true)
    (s' : List ConnectionStep) :
    (run options (s ++ s')).outbound.filterMap headersId = (run options s).outbound.filterMap headersId := by
  induction s' using List.reverseRecOn with
  | nil => rw [List.append_nil]
  | append_singleton s' a ih =>
      have hstill : (run options (s ++ s')).closing = true := by
        rw [run_append]
        exact (steps_advances _ s').closing hclosing
      obtain ⟨chunks, -, hemits⟩ := (run options (s ++ s')).step_sends a
      have hnone := headersId_of_sendable ((run options (s ++ s')).rest_sendable chunks a)
      rw [← List.append_assoc, run_concat, hemits.outbound, List.filterMap_append, List.filterMap_append, hnone,
        sends_closing hstill, List.append_nil, List.append_nil, ih]

/-- What has gone out since, and that no promise of a stream has been settled. -/
structure QuietSince (c : Http2Connection) (answers rest : List Frame) (s' : List ConnectionStep) (c' : Http2Connection) : Prop where
  outbound : c'.outbound = c.outbound ++ rest
  goaways : rest.filter Frame.isGoaway = s'.filterMap farewell
  others : rest.filter (fun frame => !frame.isGoaway) = answers
  settled : ∃ new, c'.manager.effects = c.manager.effects ++ new ∧ ∀ effect ∈ new, effect.settles = false

/-- What the read loop still gets to answer. -/
def LastAnswers (c : Http2Connection) (answers : List Frame) (s' : List ConnectionStep) : Prop :=
  answers = [] ∨ ∃ pre frame post, s' = pre ++ .receiveFrame frame :: post ∧ answers = (c.steps pre).manager.answers frame

/-- An answer is the last: the read loop was waiting for a frame when the connection was closed. -/
theorem LastAnswers.concat {answers : List Frame} {s' : List ConnectionStep} (hclosed : c.closed = true)
    (h : c.LastAnswers answers s') (a : ConnectionStep) : c.LastAnswers (answers ++ (c.steps s').answersTo a) (s' ++ [a]) := by
  by_cases hanswers : (c.steps s').answersTo a = []
  · rw [hanswers, List.append_nil]
    rcases h with hnone | ⟨pre, frame, post, hsplit, heq⟩
    · exact .inl hnone
    · exact .inr ⟨pre, frame, post ++ [a], by rw [hsplit, List.append_assoc, List.cons_append], heq⟩
  · obtain ⟨frame, hframe, hreading⟩ : ∃ frame, a = .receiveFrame frame ∧ (c.steps s').reading = true := by
      cases a with
      | receiveFrame frame =>
          refine ⟨frame, rfl, ?_⟩
          by_contra hreading
          exact hanswers (if_neg hreading)
      | _ => exact absurd rfl hanswers
    have hnone : answers = [] := by
      rcases h with hnone | ⟨pre, earlier, post, hsplit, -⟩
      · exact hnone
      · -- the loop has ended with the earlier frame
        have hrest : c.steps s' = ((c.steps pre).receiveFrame earlier).steps post := by
          rw [hsplit, steps, List.foldl_append, List.foldl_cons]
          rfl
        rw [hrest] at hreading
        exact absurd (steps_reading hreading) (by rw [receiveFrame_ends (steps_closed hclosed pre)]; exact Bool.false_ne_true)
    refine .inr ⟨s', frame, [], by rw [hframe], ?_⟩
    rw [hnone, hframe, answersTo, if_pos hreading, List.nil_append]

theorem QuietSince.concat {answers rest : List Frame} {s' : List ConnectionStep} (h : QuietSince c answers rest s' c')
    (hclosed : c'.closed = true) (hclosing : c'.closing = true) (hqueue : c'.manager.Unqueued) (hnone : c'.manager.NoCallbacks)
    (a : ConnectionStep) :
    QuietSince c (answers ++ c'.answersTo a) (rest ++ (farewell a).toList ++ c'.answersTo a) (s' ++ [a]) (c'.step a) := by
  have hgoaway : ∀ frame ∈ (farewell a).toList, frame.isGoaway = true := by
    intro frame hframe
    cases a with
    | goaway lastStreamId errorCode debugData => exact List.mem_singleton.mp hframe ▸ rfl
    | _ => exact absurd hframe List.not_mem_nil
  have hanswers := c'.answersTo_not_goaway a
  refine ⟨?_, ?_, ?_, ?_⟩
  · rw [step_outbound_closed hclosed hclosing hqueue, h.outbound, List.append_assoc, List.append_assoc, List.append_assoc]
  · rw [List.filter_append, List.filter_append, h.goaways, List.filter_eq_self.mpr hgoaway, List.filterMap_append,
      List.filter_eq_nil_iff.mpr fun frame hframe => Bool.eq_false_iff.mp (hanswers frame hframe), List.append_nil,
      List.filterMap_cons]
    cases farewell a <;> rfl
  · rw [List.filter_append, List.filter_append, h.others, List.filter_eq_nil_iff.mpr fun frame hframe => by simp [hgoaway frame hframe],
      List.filter_eq_self.mpr fun frame hframe => by simp [hanswers frame hframe], List.append_nil]
  · obtain ⟨new, hnew, hquiet⟩ := h.settled
    rcases step_manager_closed hclosed a with ⟨hmanager, -⟩ | ⟨op, hmanager, -, -, hscope⟩
    · exact ⟨new, by rw [hmanager, hnew], hquiet⟩
    · obtain ⟨new', hnew', hquiet'⟩ := hnone.settles hscope
      exact ⟨new ++ new', by rw [hmanager, hnew', hnew, List.append_assoc], List.forall_mem_append.mpr ⟨hquiet, hquiet'⟩⟩

end Http2Connection

open Http2Connection in
/-- Closing is for good. Once the connection is closing no stream opens on the wire. Once it is closed all that goes out
are the GOAWAYs of further calls of `goaway()` and the answers to at most one frame, and no response settles a promise. -/
theorem closing_for_good (options : Http2Options) (s s' : List ConnectionStep) (hclosing : (run options s).closing = true) :
    (run options (s ++ s')).outbound.filterMap headersId = (run options s).outbound.filterMap headersId ∧
      ((run options s).closed = true →
        ∃ answers rest, (run options s).LastAnswers answers s' ∧ QuietSince (run options s) answers rest s' (run options (s ++ s'))) := by
  refine ⟨run_headers_closing options s hclosing s', fun hclosed => ?_⟩
  induction s' using List.reverseRecOn with
  | nil =>
      rw [List.append_nil]
      exact ⟨[], [], .inl rfl, (List.append_nil _).symm, rfl, rfl, [], (List.append_nil _).symm, fun _ hmem => absurd hmem List.not_mem_nil⟩
  | append_singleton s' a ih =>
      obtain ⟨answers, rest, hlast, hquiet⟩ := ih
      have hstill : (run options (s ++ s')).closed = true := by
        rw [run_append]
        exact steps_closed hclosed s'
      have hlast' := hlast.concat hclosed a
      rw [← run_append] at hlast'
      have hquiet' := hquiet.concat hstill (run_closing_of_closed options _ hstill) (run_unqueued options _ hstill)
        (run_emptied options _ hstill).2 a
      rw [← run_concat, List.append_assoc s] at hquiet'
      exact ⟨_, _, hlast', hquiet'⟩

open Http2Connection in
/-- A connection that closes with a call in flight is told to say goodbye, and then hears a PING and another. -/
theorem closing_for_good_ping :
    (run {} (closedAround ++ [.goaway 7 0 [], .receiveFrame (.ping ⟨0, 0, false, 5⟩), .receiveFrame (.ping ⟨0, 0, false, 6⟩)])).outbound.filterMap
          headersId = (run {} closedAround).outbound.filterMap headersId ∧
      ∃ answers rest, (run {} closedAround).LastAnswers answers
          [.goaway 7 0 [], .receiveFrame (.ping ⟨0, 0, false, 5⟩), .receiveFrame (.ping ⟨0, 0, false, 6⟩)] ∧
        QuietSince (run {} closedAround) answers rest
          [.goaway 7 0 [], .receiveFrame (.ping ⟨0, 0, false, 5⟩), .receiveFrame (.ping ⟨0, 0, false, 6⟩)]
          (run {} (closedAround ++ [.goaway 7 0 [], .receiveFrame (.ping ⟨0, 0, false, 5⟩), .receiveFrame (.ping ⟨0, 0, false, 6⟩)])) := by
  have hboth := closing_for_good {} closedAround
    [.goaway 7 0 [], .receiveFrame (.ping ⟨0, 0, false, 5⟩), .receiveFrame (.ping ⟨0, 0, false, 6⟩)] (by decide +kernel)
  exact ⟨hboth.1, hboth.2 (by decide +kernel)⟩

end BrowsercoreHttp2
