import BrowsercoreHttp2.Stream.Departures

/-!
# Server push

A PUSH_PROMISE creates the stream it promises under the id the peer chose, whatever that id is, and a
stream that has it gives way. The response on a promised stream is surfaced by `maybeResolveResponse`, which
asks for a resolver first; a pushed stream has one only where `expectResponse` was called for it.
-/

namespace BrowsercoreHttp2

open Relation

namespace Manager

variable {m m' : Manager}

/-! ### The promised id -/

/-- A PUSH_PROMISE leaves the streams that are there, and what it creates is new and the server's. -/
structure KeepsStreams (m m' : Manager) : Prop where
  retired : m'.retired = m.retired
  streams : ∀ st ∈ m.streams.entries, m'.streams.get st.id = some st
  created : ∀ id ∈ m'.streams.keys, id ∉ m.streams.keys → (∀ st ∈ m.retired, st.id ≠ id) ∧ id % 2 = 0

theorem handlePushPromise_retired (m : Manager) (frame : PushPromiseFrame) :
    (m.handlePushPromise frame).1.retired = m.retired ++ (m.streams.get frame.promisedStreamId).toList := by
  have hpushed : ∀ st : ManagedStream, st.id = frame.promisedStreamId →
      (m.insertStream st).retired = m.retired ++ (m.streams.get frame.promisedStreamId).toList := by
    intro st hid
    rw [← hid]
    rfl
  rw [handlePushPromise]
  dsimp only
  split
  · split
    · rename_i st e hdecode
      exact hpushed st (decodePendingHeaders_changes hdecode).id_eq
    · rename_i st hdecode
      exact hpushed st (decodePendingHeaders_changes hdecode).id_eq
  · exact hpushed _ rfl

/-- Dispatching a PUSH_PROMISE displaces no stream and brings none back exactly when the id it promises is
even, not in the table and not that of a stream that has left it. -/
theorem push_displaces_nothing_iff (ops : List ManagerOp) (frame : PushPromiseFrame) :
    KeepsStreams (run ops) ((run ops).dispatch (.pushPromise frame)).1 ↔
      frame.promisedStreamId ∉ (run ops).streams.keys ∧ (∀ st ∈ (run ops).retired, st.id ≠ frame.promisedStreamId) ∧
        frame.promisedStreamId % 2 = 0 := by
  generalize run ops = m
  obtain ⟨promised, hchanges, hstreams⟩ := handlePushPromise_streams m frame
  have hid : promised.id = frame.promisedStreamId := hchanges.id_eq
  have hretired := handlePushPromise_retired m frame
  change KeepsStreams m (m.handlePushPromise frame).1 ↔ _
  constructor
  · intro hkeeps
    have hfree : frame.promisedStreamId ∉ m.streams.keys := by
      intro hmem
      obtain ⟨st, hget⟩ := Table.mem_keys_iff.mp hmem
      have hgrown := hretired.symm.trans hkeeps.retired
      rw [hget] at hgrown
      exact absurd hgrown (by simp)
    have hcreated : frame.promisedStreamId ∈ (m.handlePushPromise frame).1.streams.keys := by
      rw [hstreams, ← hid]
      exact List.mem_map_of_mem (Table.mem_of_get (Table.get_set_self m.streams promised))
    exact ⟨hfree, hkeeps.created _ hcreated hfree⟩
  · rintro ⟨hfree, hopen, heven⟩
    have hnone : m.streams.get frame.promisedStreamId = none := by
      cases hget : m.streams.get frame.promisedStreamId with
      | none => rfl
      | some st => exact absurd (Table.mem_keys_iff.mpr ⟨st, hget⟩) hfree
    refine ⟨?_, ?_, ?_⟩
    · rw [hretired, hnone, Option.toList_none, List.append_nil]
    · intro st hst
      have hne : promised.id ≠ st.id := fun h => hfree (hid ▸ h ▸ List.mem_map_of_mem hst)
      rw [hstreams, Table.get_set_ne m.streams hne, Table.get_of_mem hst]
    · intro id hmem hnew
      rw [hstreams, Table.keys_set] at hmem
      have hsame : id = frame.promisedStreamId := by
        split at hmem
        · exact absurd hmem hnew
        · rcases List.mem_append.mp hmem with hold | hlast
          · exact absurd hold hnew
          · exact (List.mem_singleton.mp hlast).trans hid
      rw [hsame]
      exact ⟨hopen, heven⟩

/-- A PUSH_PROMISE takes the place of a stream that waits for its response, and `abortAll` has nothing left to
reject. -/
theorem push_strands_request :
    ¬ KeepsStreams (run [.openStream, .expectResponse 1 0 0])
        ((run [.openStream, .expectResponse 1 0 0]).dispatch (.pushPromise ⟨0x4, 1, true, false, 1, []⟩)).1 ∧
      (((run [.openStream, .expectResponse 1 0 0]).dispatch (.pushPromise ⟨0x4, 1, true, false, 1, []⟩)).1.abortAll
        (.http2 .connectionClosed)).effects = [.emitEvent (.push 1 .empty), .emitEvent (.streamClosed 1)] := by
  refine ⟨fun hkeeps => ?_, by decide +kernel⟩
  exact absurd hkeeps.retired (by decide +kernel)

/-! ### The pushed response -/

/-- The request headers of the `push` events for a stream. -/
def pushesOf (id : StreamId) (effects : List Effect) : List HeaderMap := effects.filterMap fun
  | .emitEvent (.push streamId headers) => if streamId = id then some headers else none
  | _ => none

/-- The responses of the `pushResponse` events for a stream. -/
def pushResponsesOf (id : StreamId) (effects : List Effect) : List Http2Response := effects.filterMap fun
  | .emitEvent (.pushResponse streamId response) => if streamId = id then some response else none
  | _ => none

/-- From one manager to a later one a push was announced once, with its request, and answered once, with its
response, and its stream is gone. -/
structure Surfaced (id : StreamId) (request : HeaderMap) (response : Http2Response) (m m' : Manager) : Prop where
  push : pushesOf id (m'.effects.drop m.effects.length) = [request]
  pushResponse : pushResponsesOf id (m'.effects.drop m.effects.length) = [response]
  gone : id ∉ m'.streams.keys

theorem pushResponsesOf_append (id : StreamId) (effects effects' : List Effect) :
    pushResponsesOf id (effects ++ effects') = pushResponsesOf id effects ++ pushResponsesOf id effects' := List.filterMap_append

theorem pushResponsesOf_of_quiet (id : StreamId) {effects : List Effect} (h : ∀ effect ∈ effects, effect.ending = false) :
    pushResponsesOf id effects = [] := by
  apply List.filterMap_eq_nil_iff.mpr
  intro effect hmem
  have hquiet := h effect hmem
  cases effect with
  | emitEvent event =>
      cases event with
      | pushResponse => simp [Effect.ending] at hquiet
      | _ => rfl
  | _ => rfl

/-- The stream of that id, if there is one, has no resolver. -/
def Unclaimed (m : Manager) (id : StreamId) : Prop := ∀ st ∈ m.streams.entries, st.id = id → st.resolve = none

/-- The manager moved on, and no response of the stream was surfaced. -/
def Unanswered (id : StreamId) (m m' : Manager) : Prop :=
  m'.Unclaimed id ∧ ∃ new, m'.effects = m.effects ++ new ∧ pushResponsesOf id new = []

theorem Unanswered.trans {m'' : Manager} {id : StreamId} (h : Unanswered id m m') (h' : Unanswered id m' m'') : Unanswered id m m'' := by
  obtain ⟨-, new, hnew, hnone⟩ := h
  obtain ⟨hfree, new', hnew', hnone'⟩ := h'
  refine ⟨hfree, new ++ new', by rw [hnew', hnew, List.append_assoc], ?_⟩
  rw [pushResponsesOf_append, hnone, hnone', List.append_nil]

theorem Unclaimed.delete {id : StreamId} (h : m.Unclaimed id) {k : StreamId} (hstreams : m'.streams = m.streams.delete k) :
    m'.Unclaimed id := by
  intro st hst
  rw [hstreams] at hst
  exact h st (Table.mem_delete.mp hst).1

theorem Unclaimed.set {id : StreamId} (h : m.Unclaimed id) {st : ManagedStream} (hstreams : m'.streams = m.streams.set st)
    (hst : st.id = id → st.resolve = none) : m'.Unclaimed id := by
  intro w hw
  rw [hstreams] at hw
  rcases Table.mem_set hw with rfl | ⟨hw, -⟩
  · exact hst
  · exact h w hw

theorem TableMove.unanswered {op : ManagerOp} {id : StreamId} (hmove : TableMove op m m') (h : m.Unclaimed id) : Unanswered id m m' := by
  cases hmove with
  | aside new hstreams heffects hnew =>
      have hquiet : ∀ effect ∈ new, effect.ending = false := fun effect heffect => Effect.ending_of_besides (hnew effect heffect)
      exact ⟨fun st hst => h st (hstreams ▸ hst), new, heffects, pushResponsesOf_of_quiet id hquiet⟩
  | @written st st' hget hid hcallbacks _ =>
      refine ⟨h.set rfl fun hself => ?_, [], (List.append_nil _).symm, rfl⟩
      rw [(Prod.mk.inj hcallbacks).1]
      exact h st (Table.mem_of_get hget) (hid.symm.trans hself)
  | @settled st hget =>
      rcases maybeResolveResponse_cases m st with hsame | ⟨resolve, hresolve, hstreams, heffects⟩
      · rw [hsame]
        exact ⟨h, [], (List.append_nil _).symm, rfl⟩
      · have hother : st.id ≠ id := by
          intro hid
          rw [h st (Table.mem_of_get hget) hid] at hresolve
          exact absurd hresolve.symm (Option.some_ne_none resolve)
        refine ⟨h.delete hstreams, _, heffects, ?_⟩
        rw [settlement, pushResponsesOf_append]
        split <;> simp [pushResponsesOf, hother]
  | @rejected st st' hget hid hcallbacks err =>
      refine ⟨h.delete (rejectStream_streams m st' err), _, rejectStream_effects m st' err, ?_⟩
      rw [rejection]
      cases st'.reject <;> rfl

theorem TableMoves.unanswered {op : ManagerOp} {id : StreamId} (hmoves : TableMoves op m m') (h : m.Unclaimed id) : Unanswered id m m' := by
  induction hmoves with
  | refl => exact ⟨h, [], (List.append_nil _).symm, rfl⟩
  | tail _ hmove ih => exact ih.trans (hmove.unanswered ih.1)

theorem handlePushPromise_unanswered {id : StreamId} (frame : PushPromiseFrame)
    (h : frame.promisedStreamId ≠ id → m.Unclaimed id) : Unanswered id m (m.handlePushPromise frame).1 := by
  obtain ⟨promised, hchanges, hstreams⟩ := handlePushPromise_streams m frame
  have hfree : promised.resolve = none := congrArg Prod.fst (hchanges.callbacks_eq (by decide))
  have hid : promised.id = frame.promisedStreamId := hchanges.id_eq
  refine ⟨fun st hst hsame => ?_, ?_⟩
  · rw [hstreams] at hst
    rcases Table.mem_set hst with rfl | ⟨hst, hne⟩
    · exact hfree
    · exact h (fun hpromised => hne (hsame.trans (hpromised.symm.trans hid.symm))) st hst hsame
  · rcases handlePushPromise_announces m frame with hsame | ⟨streamId, headers, hnew⟩
    · exact ⟨[], by rw [hsame, List.append_nil], rfl⟩
    · exact ⟨_, hnew, rfl⟩

/-- Without `expectResponse` for the stream no operation gives it a resolver or surfaces its response. -/
theorem step_unanswered {id : StreamId} (h : m.Unclaimed id) {op : ManagerOp}
    (hop : ∀ resolve reject, op ≠ .expectResponse id resolve reject) : Unanswered id m (m.step op) := by
  have hmoves : m.replaces op = none → Unanswered id m (m.step op) := by
    intro hnone
    exact (step_tableMoves hnone).unanswered h
  cases op with
  | openStream => exact ⟨h.set rfl fun _ => rfl, [], (List.append_nil _).symm, rfl⟩
  | expectResponse streamId resolve reject =>
      have hother : streamId ≠ id := by
        rintro rfl
        exact hop resolve reject rfl
      simp only [step, expectResponse]
      split
      · exact ⟨h, [_], rfl, rfl⟩
      · rename_i st hget
        exact ⟨h.set rfl fun hid => absurd ((Table.key_of_get hget).symm.trans hid) hother, [], (List.append_nil _).symm, rfl⟩
  | dispatch frame =>
      cases frame with
      | pushPromise frame => exact handlePushPromise_unanswered frame fun _ => h
      | _ => exact hmoves rfl
  | _ => exact hmoves rfl

theorem steps_unanswered {id : StreamId} (h : m.Unclaimed id) {ops : List ManagerOp}
    (hops : ∀ op ∈ ops, ∀ resolve reject, op ≠ .expectResponse id resolve reject) : Unanswered id m (m.steps ops) := by
  induction ops generalizing m with
  | nil => exact ⟨h, [], (List.append_nil _).symm, rfl⟩
  | cons op ops ih =>
      obtain ⟨hop, hrest⟩ := List.forall_mem_cons.mp hops
      have hstep := step_unanswered h hop
      exact hstep.trans (ih hstep.1 hrest)

/-- Whatever follows a PUSH_PROMISE, the pushed response complete or not: as long as nobody calls
`expectResponse` for the promised stream, the push is never surfaced. -/
theorem push_never_surfaced (before rest : List ManagerOp) (frame : PushPromiseFrame)
    (hnobody : ∀ op ∈ rest, ∀ resolve reject, op ≠ .expectResponse frame.promisedStreamId resolve reject)
    (request : HeaderMap) (response : Http2Response) :
    ¬ Surfaced frame.promisedStreamId request response (run before)
      (run (before ++ .dispatch (.pushPromise frame) :: rest)) := by
  intro hsurfaced
  have hpromise : Unanswered frame.promisedStreamId (run before) ((run before).step (.dispatch (.pushPromise frame))) :=
    handlePushPromise_unanswered frame fun h => absurd rfl h
  obtain ⟨-, new, hnew, hnone⟩ := hpromise.trans (steps_unanswered hpromise.1 hnobody)
  have hanswered := hsurfaced.pushResponse
  rw [run_append, show (run before).steps (.dispatch (.pushPromise frame) :: rest) =
    ((run before).step (.dispatch (.pushPromise frame))).steps rest from rfl, hnew, List.drop_left, hnone] at hanswered
  exact absurd hanswered (by simp)

/-- A push whose response is complete: its request, then a HEADERS frame and a DATA frame that ends the stream. -/
def completePush : List ManagerOp :=
  [.dispatch (headersFrame 2 true false [0x88]), .dispatch (.data ⟨0x1, 2, [0x61]⟩)]

theorem push_never_surfaced_complete :
    ¬ Surfaced 2 .empty ⟨200, .empty, [0x61]⟩ (run [.openStream])
      (run ([.openStream] ++ .dispatch (.pushPromise ⟨0x4, 1, true, false, 2, []⟩) :: completePush)) :=
  push_never_surfaced [.openStream] completePush ⟨0x4, 1, true, false, 2, []⟩ (by simp [completePush, headersFrame])
    .empty ⟨200, .empty, [0x61]⟩

/-- The response is all there, no event carries it, and its stream stays in the table. -/
theorem complete_push_unanswered :
    let m := run ([.openStream] ++ .dispatch (.pushPromise ⟨0x4, 1, true, false, 2, []⟩) :: completePush)
    (pushesOf 2 m.effects = [.empty] ∧ pushResponsesOf 2 m.effects = []) ∧
      (m.streams.get 2).map (fun st => (st.headersComplete, st.endStreamSeen, st.responseChunks)) = some (true, true, [[0x61]]) ∧
      ∀ request response, ¬ Surfaced 2 request response (run [.openStream]) m := by
  refine ⟨by decide +kernel, by decide +kernel, fun request response hsurfaced => ?_⟩
  exact absurd (by decide +kernel) hsurfaced.gone

end Manager

end BrowsercoreHttp2
