import BrowsercoreHttp2.Stream.Response
import BrowsercoreHttp2.Stream.SendQueue

/-!
# How streams leave the table

A stream leaves the table in two ways: its response is settled, or it is rejected. Both announce it as closed
and call one of its callbacks if it has them. Every other change keeps the callbacks, so between
`expectResponse` and the end of the stream a promise is never lost, unless another stream takes the place of
the one that holds it.

`TableMove` lists what the handlers are made of as far as the ends of streams go. What each of these moves
keeps, every operation keeps that replaces no stream.
-/

namespace BrowsercoreHttp2

open Relation

/-- The effects that tell of the end of a stream. -/
def Effect.ending : Effect → Bool
  | .emitEvent (.streamClosed _) | .emitEvent (.pushResponse _ _) | .resolve _ _ | .reject _ _ => true
  | _ => false

/-- What an operation may add besides the ends of streams: the frames a manager sends, pushes, and of the events
of a whole connection the one announced. -/
def Effect.besides (announced : Option Event) : Effect → Bool
  | .sendFrame (.data _) | .sendFrame (.settings _) | .sendFrame (.ping _) | .sendFrame (.windowUpdate _) => true
  | .emitEvent (.push _ _) => true
  | .emitEvent (.goaway lastStreamId errorCode debugData) => announced = some (.goaway lastStreamId errorCode debugData)
  | .emitEvent (.pingAck opaqueData) => announced = some (.pingAck opaqueData)
  | .emitEvent .settingsAck => announced = some .settingsAck
  | _ => false

theorem Effect.ending_of_besides {announced : Option Event} {effect : Effect} (h : effect.besides announced = true) :
    effect.ending = false := by
  cases effect with
  | sendFrame => rfl
  | emitEvent event =>
      cases event with
      | streamClosed | pushResponse => exact absurd h Bool.false_ne_true
      | _ => rfl
  | _ => exact absurd h Bool.false_ne_true

namespace ManagerOp

/-- The event by which a frame announces itself. -/
def announces : ManagerOp → Option Event
  | .dispatch (.settings frame) => if frame.ack then some .settingsAck else none
  | .dispatch (.ping frame) => if frame.ack then some (.pingAck frame.opaqueData) else none
  | .dispatch (.goaway frame) => some (.goaway frame.lastStreamId frame.errorCode frame.debugData)
  | _ => none

/-- The frames that can end a stream for the peer: DATA, and HEADERS that hold a whole block. -/
def ends (id : StreamId) : ManagerOp → Prop
  | .dispatch (.data frame) => frame.streamId = id ∧ frame.flags &&& 0x1 ≠ 0
  | .dispatch (.headers frame) => frame.streamId = id ∧ frame.endHeaders = true ∧ frame.endStream = true
  | _ => False

end ManagerOp

/-- The effects announce that the stream has closed, and settle the promise it held. -/
def ManagedStream.DepartsIn (st : ManagedStream) (new : List Effect) : Prop :=
  .emitEvent (.streamClosed st.id) ∈ new ∧
    ∀ resolve reject, st.callbacks = (some resolve, some reject) →
      (∃ response, .resolve resolve response ∈ new) ∨ ∃ error, .reject reject error ∈ new

theorem ManagedStream.DepartsIn.mono {st : ManagedStream} {new new' : List Effect} (h : st.DepartsIn new) (hsub : new ⊆ new') :
    st.DepartsIn new' := by
  obtain ⟨hclosed, hsettled⟩ := h
  refine ⟨hsub hclosed, fun resolve reject hcallbacks => ?_⟩
  exact (hsettled resolve reject hcallbacks).imp (fun ⟨response, hmem⟩ => ⟨response, hsub hmem⟩)
    fun ⟨error, hmem⟩ => ⟨error, hsub hmem⟩

theorem ManagedStream.DepartsIn.congr {st st' : ManagedStream} {new : List Effect} (h : st'.DepartsIn new) (hid : st'.id = st.id)
    (hcallbacks : st'.callbacks = st.callbacks) : st.DepartsIn new := by
  rw [DepartsIn, ← hid, ← hcallbacks]
  exact h

namespace Manager

/-- Every stream stays with the callbacks it has, or departs. -/
def Retains (m m' : Manager) : Prop :=
  ∃ new, m'.effects = m.effects ++ new ∧ ∀ st ∈ m.streams.entries,
    (∃ st' ∈ m'.streams.entries, st'.id = st.id ∧ st'.callbacks = st.callbacks) ∨ st.DepartsIn new

variable {m m' m'' : Manager} {st : ManagedStream}

namespace Retains

theorem same (hstreams : m'.streams = m.streams) (heffects : m.effects <+: m'.effects) : Retains m m' := by
  obtain ⟨new, hnew⟩ := heffects
  exact ⟨new, hnew.symm, fun st hst => .inl ⟨st, hstreams ▸ hst, rfl, rfl⟩⟩

theorem refl (m : Manager) : Retains m m := same rfl List.prefix_rfl

theorem trans (h : Retains m m') (h' : Retains m' m'') : Retains m m'' := by
  obtain ⟨new, hnew, hkeeps⟩ := h
  obtain ⟨new', hnew', hkeeps'⟩ := h'
  refine ⟨new ++ new', by rw [hnew', hnew, List.append_assoc], fun st hst => ?_⟩
  rcases hkeeps st hst with ⟨st', hst', hid, hcallbacks⟩ | hdeparts
  · rcases hkeeps' st' hst' with ⟨st'', hst'', hid', hcallbacks'⟩ | hdeparts
    · exact .inl ⟨st'', hst'', hid'.trans hid, hcallbacks'.trans hcallbacks⟩
    · exact .inr ((hdeparts.congr hid hcallbacks).mono (List.subset_append_right new new'))
  · exact .inr (hdeparts.mono (List.subset_append_left new new'))

theorem setStream (hget : m.streams.get st.id = some st) {st' : ManagedStream} (hid : st'.id = st.id)
    (hcallbacks : st'.callbacks = st.callbacks) : Retains m (m.setStream st') := by
  refine ⟨[], (List.append_nil _).symm, fun w hw => .inl ?_⟩
  by_cases hsame : w.id = st.id
  · have hself : w = st := m.streams.key_injOn hw (Table.mem_of_get hget) hsame
    exact ⟨st', Table.mem_of_get (Table.get_set_self m.streams st'), hself ▸ hid, hself ▸ hcallbacks⟩
  · have hkept : (m.streams.set st').get w.id = some w := by
      rw [Table.get_set_ne m.streams (fun h => hsame (h.symm.trans hid)), Table.get_of_mem hw]
    exact ⟨w, Table.mem_of_get hkept, rfl, rfl⟩

theorem delete (hget : m.streams.get st.id = some st) (new : List Effect) (heffects : m'.effects = m.effects ++ new)
    (hstreams : m'.streams = m.streams.delete st.id) (hdeparts : st.DepartsIn new) : Retains m m' := by
  refine ⟨new, heffects, fun w hw => ?_⟩
  by_cases hsame : w.id = st.id
  · have hself : w = st := m.streams.key_injOn hw (Table.mem_of_get hget) hsame
    exact .inr (hself ▸ hdeparts)
  · exact .inl ⟨w, hstreams ▸ Table.mem_delete.mpr ⟨hw, hsame⟩, rfl, rfl⟩

end Retains

/-! ### Settling -/

theorem rejectStream_streams (m : Manager) (st : ManagedStream) (err : JsError) :
    (m.rejectStream st err).streams = m.streams.delete st.id := by
  rw [rejectStream]
  split <;> rfl

/-- What rejecting a stream is seen to do. -/
def rejection (err : JsError) (st : ManagedStream) : List Effect :=
  .emitEvent (.streamClosed st.id) :: (st.reject.map (Effect.reject · err)).toList

theorem rejectStream_effects (m : Manager) (st : ManagedStream) (err : JsError) :
    (m.rejectStream st err).effects = m.effects ++ rejection err st := by
  rw [rejectStream, rejection]
  split
  · rename_i hreject
    rw [hreject]
    rfl
  · rename_i callback hreject
    rw [hreject]
    simp only [finalizeStream, emitEvent, perform, List.append_assoc, List.singleton_append, Option.map_some, Option.toList_some]

theorem rejectStream_retains (hget : m.streams.get st.id = some st) {st' : ManagedStream} (hid : st'.id = st.id)
    (hcallbacks : st'.callbacks = st.callbacks) (err : JsError) : Retains m (m.rejectStream st' err) := by
  have hstreams : (m.rejectStream st' err).streams = m.streams.delete st.id := by rw [rejectStream_streams, hid]
  cases hreject : st'.reject with
  | none =>
      refine .delete hget [.emitEvent (.streamClosed st'.id)] ?_ hstreams ?_
      · rw [rejectStream, hreject]
        rfl
      · refine ⟨hid ▸ List.mem_singleton.mpr rfl, fun resolve reject hboth => ?_⟩
        rw [← hcallbacks, ManagedStream.callbacks, hreject] at hboth
        exact absurd (Prod.mk.inj hboth).2 (by simp)
  | some callback =>
      refine .delete hget [.emitEvent (.streamClosed st'.id), .reject callback err] ?_ hstreams ?_
      · rw [rejectStream, hreject]
        simp only [finalizeStream, emitEvent, perform, List.append_assoc, List.singleton_append]
      · refine ⟨hid ▸ List.mem_cons_self, fun resolve reject hboth => .inr ⟨err, ?_⟩⟩
        rw [← hcallbacks, ManagedStream.callbacks, hreject] at hboth
        rw [← Option.some.inj (Prod.mk.inj hboth).2]
        simp

theorem maybeResolveResponse_retains (hget : m.streams.get st.id = some st) : Retains m (m.maybeResolveResponse st) := by
  rcases maybeResolveResponse_cases m st with hsame | ⟨callback, hcallback, hstreams, heffects⟩
  · rw [hsame]
    exact .refl m
  · refine .delete hget _ heffects hstreams ⟨by simp [settlement], fun resolve reject hboth => .inl ⟨st.response, ?_⟩⟩
    rw [ManagedStream.callbacks, hcallback] at hboth
    rw [← Option.some.inj (Prod.mk.inj hboth).1]
    simp [settlement]

/-! ### Rejecting in a loop -/

theorem delete_entries_between {kept rest : List ManagedStream} (hentries : m.streams.entries = kept ++ st :: rest) :
    (m.streams.delete st.id).entries = kept ++ rest := by
  have hnodup := m.streams.nodup
  rw [hentries, List.map_append, List.map_cons, List.nodup_middle, List.nodup_cons] at hnodup
  have hothers : ∀ w ∈ kept ++ rest, w.id ≠ st.id := by
    intro w hw hid
    refine hnodup.1 ?_
    rw [← List.map_append, ← hid]
    exact List.mem_map_of_mem hw
  obtain ⟨hkept, hrest⟩ := List.forall_mem_append.mp hothers
  change m.streams.entries.filter (fun w => w.id ≠ st.id) = _
  rw [hentries, List.filter_append, List.filter_cons_of_neg (by simp), List.filter_eq_self.mpr fun w hw => decide_eq_true (hkept w hw),
    List.filter_eq_self.mpr fun w hw => decide_eq_true (hrest w hw)]

theorem forEachStream_eq (m : Manager) (body : Manager → ManagedStream → Manager) :
    m.forEachStream body = m.streams.keys.foldl (fun m id => (m.streams.get id).elim m (body m)) m := by
  rw [forEachStream]
  congr 1
  funext m id
  cases m.streams.get id <;> rfl

section Loop

variable (doomed : ManagedStream → Prop) [DecidablePred doomed] (close : ManagedStream → ManagedStream) (err : JsError)

/-- The body of a loop that rejects some streams. -/
def rejectIf (m : Manager) (st : ManagedStream) : Manager := if doomed st then m.rejectStream (close st) err else m

/-- A loop that rejects some streams, whatever else it writes to them, keeps the others and none of these. -/
theorem forEachStream_rejectIf (m : Manager) (hclose : ∀ st, (close st).id = st.id ∧ (close st).reject = st.reject) :
    (m.forEachStream (rejectIf doomed close err)).streams.entries = m.streams.entries.filter (fun st => ¬doomed st) ∧
      (m.forEachStream (rejectIf doomed close err)).effects =
        m.effects ++ (m.streams.entries.filter fun st => doomed st).flatMap (rejection err) := by
  rw [forEachStream_eq]
  suffices hloop : ∀ (rest kept : List ManagedStream) (m : Manager), m.streams.entries = kept ++ rest →
      let m' := (rest.map ManagedStream.id).foldl (fun m id => (m.streams.get id).elim m (rejectIf doomed close err m)) m
      m'.streams.entries = kept ++ rest.filter (fun st => ¬doomed st) ∧
        m'.effects = m.effects ++ (rest.filter fun st => doomed st).flatMap (rejection err) from
    hloop m.streams.entries [] m rfl
  intro rest
  induction rest with
  | nil => exact fun kept m hentries => ⟨hentries, (List.append_nil _).symm⟩
  | cons st rest ih =>
      intro kept m hentries
      have hget : m.streams.get st.id = some st := Table.get_of_mem (hentries ▸ List.mem_append_right kept List.mem_cons_self)
      dsimp only
      rw [List.map_cons, List.foldl_cons, hget, Option.elim_some]
      by_cases hdoomed : doomed st
      · have hdeleted : (m.rejectStream (close st) err).streams.entries = kept ++ rest := by
          rw [rejectStream_streams, (hclose st).1]
          exact delete_entries_between hentries
        have hsame : rejection err (close st) = rejection err st := by rw [rejection, rejection, (hclose st).1, (hclose st).2]
        obtain ⟨hstreams, heffects⟩ := ih kept (m.rejectStream (close st) err) hdeleted
        rw [rejectIf, if_pos hdoomed, hstreams, heffects, rejectStream_effects, hsame,
          List.filter_cons_of_neg (by simpa using hdoomed), List.filter_cons_of_pos (by simpa using hdoomed), List.flatMap_cons,
          List.append_assoc]
        exact ⟨rfl, rfl⟩
      · have hmoved : m.streams.entries = kept ++ [st] ++ rest := by rw [hentries, List.append_assoc, List.singleton_append]
        obtain ⟨hstreams, heffects⟩ := ih (kept ++ [st]) m hmoved
        rw [rejectIf, if_neg hdoomed, hstreams, heffects, List.filter_cons_of_pos (by simpa using hdoomed),
          List.filter_cons_of_neg (by simpa using hdoomed), List.append_assoc, List.singleton_append]
        exact ⟨rfl, rfl⟩

end Loop

/-- Rejecting every stream leaves none, so that nothing is left to clear. -/
theorem abortAll_eq (m : Manager) (error : JsError) :
    m.abortAll error = m.forEachStream fun m st => m.rejectStream { st with state := .closed .normal } error := by
  have hloop := (forEachStream_rejectIf (fun _ => True) (fun st => { st with state := .closed .normal }) error m
    fun _ => ⟨rfl, rfl⟩).1
  have hempty : (m.forEachStream fun m st => m.rejectStream { st with state := .closed .normal } error).streams = .empty :=
    Table.ext (hloop.trans (List.filter_eq_nil_iff.mpr fun _ _ => by decide))
  rw [abortAll]
  dsimp only
  rw [← hempty]

theorem handleGoaway_rejects (m : Manager) (frame : GoawayFrame) :
    (m.handleGoaway frame).streams.entries = m.streams.entries.filter (fun st => ¬frame.lastStreamId < st.id) ∧
      (m.handleGoaway frame).effects =
        m.effects ++ .emitEvent (.goaway frame.lastStreamId frame.errorCode frame.debugData) ::
          (m.streams.entries.filter fun st => frame.lastStreamId < st.id).flatMap
            (rejection (.http2 (.goawayReceived frame.lastStreamId frame.errorCode frame.debugData))) := by
  have hloop := forEachStream_rejectIf (fun st => frame.lastStreamId < st.id)
    (fun st => { st with state := .closed (.goaway frame.lastStreamId) })
    (.http2 (.goawayReceived frame.lastStreamId frame.errorCode frame.debugData))
    (m.emitEvent (.goaway frame.lastStreamId frame.errorCode frame.debugData)) fun _ => ⟨rfl, rfl⟩
  refine ⟨hloop.1, hloop.2.trans ?_⟩
  simp only [emitEvent, perform, List.append_assoc, List.singleton_append]

theorem handleGoaway_id_le (m : Manager) (frame : GoawayFrame) :
    ∀ st ∈ (m.handleGoaway frame).streams.entries, st.id ≤ frame.lastStreamId := by
  intro st hst
  rw [(handleGoaway_rejects m frame).1] at hst
  exact not_lt.mp (of_decide_eq_true (List.mem_filter.mp hst).2)

theorem streamClosed_mem_rejection {id : StreamId} {err : JsError} (h : .emitEvent (.streamClosed id) ∈ rejection err st) :
    id = st.id := by
  rcases List.mem_cons.mp h with hsame | hmem
  · exact Event.streamClosed.inj (Effect.emitEvent.inj hsame)
  · obtain ⟨callback, -, hcallback⟩ := Option.map_eq_some_iff.mp (Option.mem_toList.mp hmem)
    exact absurd hcallback (by simp)

theorem handleGoaway_effects (m : Manager) (frame : GoawayFrame) :
    ∃ new, (m.handleGoaway frame).effects =
        m.effects ++ .emitEvent (.goaway frame.lastStreamId frame.errorCode frame.debugData) :: new ∧
      ∀ id, .emitEvent (.streamClosed id) ∈ new → frame.lastStreamId < id := by
  refine ⟨_, (handleGoaway_rejects m frame).2, fun id hmem => ?_⟩
  obtain ⟨st, hst, hrejection⟩ := List.mem_flatMap.mp hmem
  rw [streamClosed_mem_rejection hrejection]
  exact of_decide_eq_true (List.mem_filter.mp hst).2

/-! ### The handlers -/

/-- What the operations that replace no stream are made of: a stream is written back with the callbacks it
had, ended only if the operation ends it, settles if it can, or is rejected. -/
inductive TableMove (op : ManagerOp) : Manager → Manager → Prop
  | aside {m m' : Manager} (new : List Effect) (hstreams : m'.streams = m.streams) (heffects : m'.effects = m.effects ++ new)
      (hnew : ∀ effect ∈ new, effect.besides op.announces = true) : TableMove op m m'
  | written {m : Manager} {st st' : ManagedStream} (hget : m.streams.get st.id = some st) (hid : st'.id = st.id)
      (hcallbacks : st'.callbacks = st.callbacks) (hended : st'.endStreamSeen = true → st.endStreamSeen = true ∨ op.ends st.id) :
      TableMove op m (m.setStream st')
  | settled {m : Manager} {st : ManagedStream} (hget : m.streams.get st.id = some st) : TableMove op m (m.maybeResolveResponse st)
  | rejected {m : Manager} {st st' : ManagedStream} (hget : m.streams.get st.id = some st) (hid : st'.id = st.id)
      (hcallbacks : st'.callbacks = st.callbacks) (err : JsError) : TableMove op m (m.rejectStream st' err)

/-- Any number of moves. -/
abbrev TableMoves (op : ManagerOp) : Manager → Manager → Prop := ReflTransGen (TableMove op)

variable {op : ManagerOp}

theorem TableMove.retains (h : TableMove op m m') : Retains m m' := by
  cases h with
  | aside new hstreams heffects => exact .same hstreams (heffects ▸ List.prefix_append _ _)
  | written hget hid hcallbacks hended => exact .setStream hget hid hcallbacks
  | settled hget => exact maybeResolveResponse_retains hget
  | rejected hget hid hcallbacks err => exact rejectStream_retains hget hid hcallbacks err

/-- What a move adds tells of an end or is allowed besides. -/
theorem TableMove.effects (h : TableMove op m m') :
    ∃ new, m'.effects = m.effects ++ new ∧ ∀ effect ∈ new, effect.ending = true ∨ effect.besides op.announces = true := by
  have hnothing : m.effects = m.effects ++ [] := (List.append_nil _).symm
  cases h with
  | aside new hstreams heffects hnew => exact ⟨new, heffects, fun effect heffect => .inr (hnew effect heffect)⟩
  | written => exact ⟨[], hnothing, fun _ h => absurd h List.not_mem_nil⟩
  | @settled st hget =>
      rcases maybeResolveResponse_cases m st with hsame | ⟨resolve, -, -, heffects⟩
      · rw [hsame]
        exact ⟨[], hnothing, fun _ h => absurd h List.not_mem_nil⟩
      · refine ⟨_, heffects, fun effect heffect => .inl ?_⟩
        rcases List.mem_append.mp heffect with hpushed | hlast
        · split at hpushed
          · exact List.mem_singleton.mp hpushed ▸ rfl
          · exact absurd hpushed List.not_mem_nil
        · rcases List.mem_pair.mp hlast with rfl | rfl <;> rfl
  | @rejected st st' _ _ _ err =>
      refine ⟨_, rejectStream_effects m st' err, fun effect heffect => .inl ?_⟩
      rcases List.mem_cons.mp heffect with rfl | hcallback
      · rfl
      · obtain ⟨callback, -, rfl⟩ := Option.map_eq_some_iff.mp (Option.mem_toList.mp hcallback)
        rfl

theorem TableMoves.retains (h : TableMoves op m m') : Retains m m' := by
  induction h with
  | refl => exact .refl m
  | tail _ hmove ih => exact ih.trans hmove.retains

theorem TableMoves.effects (h : TableMoves op m m') :
    ∃ new, m'.effects = m.effects ++ new ∧ ∀ effect ∈ new, effect.ending = true ∨ effect.besides op.announces = true := by
  induction h with
  | refl => exact ⟨[], (List.append_nil _).symm, fun _ h => absurd h List.not_mem_nil⟩
  | tail _ hmove ih =>
      obtain ⟨new, hnew, hall⟩ := ih
      obtain ⟨new', hnew', hall'⟩ := hmove.effects
      exact ⟨new ++ new', by rw [hnew', hnew, List.append_assoc], List.forall_mem_append.mpr ⟨hall, hall'⟩⟩

/-- A stream after a move was there before it, and has ended only if it had or the operation ends it. -/
def Comes (op : ManagerOp) (m : Manager) (st' : ManagedStream) : Prop :=
  ∃ st ∈ m.streams.entries, st'.id = st.id ∧ st'.callbacks = st.callbacks ∧
    (st'.endStreamSeen = true → st.endStreamSeen = true ∨ op.ends st.id)

theorem TableMove.comes (h : TableMove op m m') : ∀ st' ∈ m'.streams.entries, Comes op m st' := by
  have hdeleted : ∀ {m' : Manager} {k : StreamId}, m'.streams = m.streams.delete k → ∀ st' ∈ m'.streams.entries, Comes op m st' := by
    intro m' k hstreams st' hst'
    rw [hstreams] at hst'
    exact ⟨st', (Table.mem_delete.mp hst').1, rfl, rfl, .inl⟩
  cases h with
  | aside new hstreams => exact fun st' hst' => ⟨st', hstreams ▸ hst', rfl, rfl, .inl⟩
  | @written st st' hget hid hcallbacks hended =>
      intro w hw
      rcases Table.mem_set hw with rfl | ⟨hw, -⟩
      · exact ⟨st, Table.mem_of_get hget, hid, hcallbacks, hended⟩
      · exact ⟨w, hw, rfl, rfl, .inl⟩
  | @settled st hget =>
      rcases maybeResolveResponse_cases m st with hsame | ⟨resolve, -, hstreams, -⟩
      · rw [hsame]
        exact fun st' hst' => ⟨st', hst', rfl, rfl, .inl⟩
      · exact hdeleted hstreams
  | rejected => exact hdeleted (rejectStream_streams m _ _)

theorem TableMoves.comes (h : TableMoves op m m') : ∀ st' ∈ m'.streams.entries, Comes op m st' := by
  induction h with
  | refl => exact fun st' hst' => ⟨st', hst', rfl, rfl, .inl⟩
  | tail _ hmove ih =>
      intro w hw
      obtain ⟨w', hw', hid', hcallbacks', hended'⟩ := hmove.comes w hw
      obtain ⟨st, hst, hid, hcallbacks, hended⟩ := ih w' hw'
      refine ⟨st, hst, hid'.trans hid, hcallbacks'.trans hcallbacks, fun h => ?_⟩
      exact (hended' h).elim hended fun hends => .inr (hid ▸ hends)

theorem TableMove.same (hstreams : m'.streams = m.streams) (heffects : m'.effects = m.effects) : TableMove op m m' :=
  .aside [] hstreams (by rw [heffects, List.append_nil]) fun _ h => absurd h List.not_mem_nil

theorem TableMove.performed (m : Manager) {effect : Effect} (heffect : effect.besides op.announces = true) :
    TableMove op m (m.perform effect) :=
  .aside [effect] rfl rfl fun _ h => List.mem_singleton.mp h ▸ heffect

theorem settled_moves (hget : m.streams.get st.id = some st) {st' : ManagedStream} (hid : st'.id = st.id)
    (hcallbacks : st'.callbacks = st.callbacks) (hended : st'.endStreamSeen = true → st.endStreamSeen = true ∨ op.ends st.id) :
    TableMoves op m ((m.setStream st').maybeResolveResponse st') :=
  .tail (.single (.written hget hid hcallbacks hended)) (.settled (Table.get_set_self m.streams st'))

theorem SendsChunk.tableMoves (h : SendsChunk m m') : TableMoves op m m' := by
  cases h with
  | chunk st chunkLen isLast hget =>
      let m₁ : Manager := { m.sendDataFrame st.id (st.sendQueue.take chunkLen) isLast with
        connectionSendWindow := m.connectionSendWindow - chunkLen }
      let st' : ManagedStream :=
        { st with
          localWindow := { st.localWindow with size := st.localWindow.size - chunkLen }
          sendQueue := st.sendQueue.drop chunkLen }
      have hsent : TableMove op m m₁ := .aside [_] rfl rfl fun _ h => List.mem_singleton.mp h ▸ rfl
      have hget' : m₁.streams.get st.id = some st := hget
      have hid : st'.id = st.id := rfl
      exact .tail (.single hsent) (.written hget' hid rfl .inl)

theorem SendMove.tableMoves (h : SendMove m m') : TableMoves op m m' := by
  cases h with
  | limited => exact .single (.same rfl rfl)
  | credited st size hget => exact .single (.written hget rfl rfl .inl)
  | sent hchunk => exact hchunk.tableMoves

theorem tableMoves_of_moves (h : ReflTransGen SendMove m m') : TableMoves op m m' := by
  induction h with
  | refl => exact .refl
  | tail _ hmove ih => exact ih.trans hmove.tableMoves

theorem forEachStream_tableMoves {body : Manager → ManagedStream → Manager}
    (hbody : ∀ m' st, m'.streams.get st.id = some st → TableMoves op m' (body m' st)) :
    TableMoves op m (m.forEachStream body) :=
  forEachStream_induction .refl fun m' st h hget => h.trans (hbody m' st hget)

theorem handleData_tableMoves (m : Manager) (frame : DataFrame) :
    TableMoves (.dispatch (.data frame)) m (m.handleData frame) := by
  cases hget : m.streams.get frame.streamId with
  | none =>
      simp only [handleData, hget]
      exact .refl
  | some st =>
      obtain ⟨m₁, haccounted, hrun⟩ := handleData_eq hget
      obtain ⟨sent, hsent⟩ := haccounted.credits
      have hself : m₁.streams.get st.id = some st := by rw [haccounted.streams, Table.get_of_mem (Table.mem_of_get hget)]
      have hcredited : TableMove (.dispatch (.data frame)) m m₁ := by
        refine .aside _ haccounted.streams hsent fun effect heffect => ?_
        obtain ⟨sentFrame, -, rfl⟩ := List.mem_map.mp heffect
        rfl
      have hbuffered := afterData_eq st frame
      have hid : (afterData st frame).id = st.id := by rw [hbuffered]
      have hcallbacks : (afterData st frame).callbacks = st.callbacks := by
        rw [hbuffered]
        rfl
      have hended : (afterData st frame).endStreamSeen = st.endStreamSeen := by rw [hbuffered]
      rw [hrun]
      split
      · rename_i hflag
        let ended : ManagedStream := { afterData st frame with endStreamSeen := true }
        exact .trans (.single hcredited) (settled_moves hself ((ManagedStream.transitionOnEndStream_id ended).trans hid)
          ((ManagedStream.transitionOnEndStream_callbacks ended).trans hcallbacks) fun _ => .inr ⟨(Table.key_of_get hget).symm, hflag⟩)
      · exact .tail (.single hcredited) (.written hself hid hcallbacks fun h => .inl (hended ▸ h))

theorem kept_of_decoded {st' : ManagedStream} {payload : Bytes} {thrown : Option HpackError}
    (h : (st.pushHeaderBytes payload).decodePendingHeaders = (st', thrown)) :
    st'.id = st.id ∧ st'.callbacks = st.callbacks ∧ st'.endStreamSeen = st.endStreamSeen := by
  rw [ManagedStream.decodePendingHeaders] at h
  dsimp only at h
  split at h <;> obtain ⟨rfl, -⟩ := Prod.mk.inj h <;> exact ⟨rfl, rfl, rfl⟩

theorem handleHeaders_tableMoves (m : Manager) (frame : HeadersFrame) :
    TableMoves (.dispatch (.headers frame)) m (m.handleHeaders frame).1 := by
  rw [handleHeaders]
  split
  · exact .refl
  · rename_i st hget
    have hself : m.streams.get st.id = some st := Table.get_of_mem (Table.mem_of_get hget)
    dsimp only
    split
    · exact .single (.written hself rfl rfl .inl)
    · rename_i hwhole
      split
      · rename_i st' e hdecode
        obtain ⟨hid, hcallbacks, hended⟩ := kept_of_decoded hdecode
        exact .single (.written hself hid hcallbacks fun h => .inl (hended ▸ h))
      · rename_i st' hdecode
        obtain ⟨hid, hcallbacks, hended⟩ := kept_of_decoded hdecode
        have hpromoted : st'.promoteReserved.id = st'.id ∧ st'.promoteReserved.callbacks = st'.callbacks ∧
            st'.promoteReserved.endStreamSeen = st'.endStreamSeen := by
          rw [ManagedStream.promoteReserved_eq]
          exact ⟨rfl, rfl, rfl⟩
        split
        · rename_i hend
          refine settled_moves hself ((ManagedStream.transitionOnEndStream_id _).trans (hpromoted.1.trans hid))
            ((ManagedStream.transitionOnEndStream_callbacks _).trans (hpromoted.2.1.trans hcallbacks)) fun _ => .inr ?_
          exact ⟨(Table.key_of_get hget).symm, by simpa using hwhole, hend⟩
        · exact settled_moves hself (hpromoted.1.trans hid) (hpromoted.2.1.trans hcallbacks)
            fun h => .inl (by rwa [hpromoted.2.2, hended] at h)

theorem handleContinuation_tableMoves (m : Manager) (frame : ContinuationFrame) :
    TableMoves op m (m.handleContinuation frame).1 := by
  rw [handleContinuation]
  dsimp only
  split
  · exact .refl
  · rename_i st hget
    have hself : m.streams.get st.id = some st := Table.get_of_mem (Table.mem_of_get hget)
    split
    · exact .single (.written hself rfl rfl .inl)
    · have hcleared : ∀ promisedId, TableMove op m (m.clearPushContinuation frame.streamId promisedId) := fun promisedId =>
        .same (clearPushContinuation_streams m _ _) (clearPushContinuation_effects m _ _)
      have hkept : ∀ promisedId, (m.clearPushContinuation frame.streamId promisedId).streams.get st.id = some st :=
        fun promisedId => by
        rw [clearPushContinuation_streams, hself]
      split
      · rename_i st' e hdecode
        obtain ⟨hid, hcallbacks, hended⟩ := kept_of_decoded hdecode
        exact .tail (.single (hcleared _)) (.written (hkept _) hid hcallbacks fun h => .inl (hended ▸ h))
      · rename_i st' hdecode
        obtain ⟨hid, hcallbacks, hended⟩ := kept_of_decoded hdecode
        have hwritten : TableMoves op m _ :=
          .tail (.single (hcleared ((m.pendingPushContinuation.get frame.streamId).map Prod.snd)))
            (.written (hkept _) hid hcallbacks fun h => .inl (hended ▸ h))
        split
        · exact (hwritten.tail (.performed _ rfl)).tail (.settled (Table.get_set_self _ st'))
        · exact hwritten.tail (.settled (Table.get_set_self _ st'))

theorem handleRstStream_tableMoves (m : Manager) (frame : RstStreamFrame) : TableMoves op m (m.handleRstStream frame) := by
  rw [handleRstStream]
  split
  · exact .refl
  · rename_i st hget
    exact .single (.rejected (Table.get_of_mem (Table.mem_of_get hget)) rfl rfl _)

theorem handleSettings_tableMoves (m : Manager) (frame : SettingsFrame) :
    TableMoves (.dispatch (.settings frame)) m (m.handleSettings frame) := by
  rw [handleSettings]
  split
  · rename_i hack
    exact .single (.performed m (decide_eq_true (if_pos hack)))
  · exact (tableMoves_of_moves (applyRemoteSettings_moves m frame.settings)).tail (.performed _ rfl)

theorem handlePing_tableMoves (m : Manager) (frame : PingFrame) :
    TableMoves (.dispatch (.ping frame)) m (m.handlePing frame) := by
  rw [handlePing]
  split
  · rename_i hack
    exact .single (.performed m (decide_eq_true (if_pos hack)))
  · exact .single (.performed m rfl)

theorem handleGoaway_tableMoves (m : Manager) (frame : GoawayFrame) :
    TableMoves (.dispatch (.goaway frame)) m (m.handleGoaway frame) := by
  have hemit : TableMove (.dispatch (.goaway frame)) m
      (m.emitEvent (.goaway frame.lastStreamId frame.errorCode frame.debugData)) := .performed m (decide_eq_true rfl)
  refine .head hemit (forEachStream_tableMoves fun m' st hget => ?_)
  split
  · exact .single (.rejected hget rfl rfl _)
  · exact .refl

theorem sendData_tableMoves (m : Manager) (streamId : StreamId) (data : Bytes) (endStream : Bool) :
    TableMoves op m (m.sendData streamId data endStream) := by
  cases hget : m.streams.get streamId with
  | none =>
      simp only [sendData, hget]
      exact .refl
  | some st =>
      have hself : m.streams.get st.id = some st := Table.get_of_mem (Table.mem_of_get hget)
      have hwritten : TableMove op m (m.setStream (st.written data endStream)) := .written hself rfl rfl .inl
      rw [sendData_eq hget]
      exact .head hwritten (tableMoves_of_moves (moves_of_sends (drainSendQueue_sends (Table.get_set_self _ _))))

theorem abortAll_tableMoves (m : Manager) (error : JsError) : TableMoves op m (m.abortAll error) := by
  rw [abortAll_eq]
  exact forEachStream_tableMoves fun m' st hget => .single (.rejected hget rfl rfl _)

/-! ### One operation -/

/-- The stream whose place an operation gives to another, or whose callbacks it registers. -/
def replaces (m : Manager) : ManagerOp → Option StreamId
  | .openStream => some m.nextStreamId
  | .dispatch (.pushPromise frame) => some frame.promisedStreamId
  | .expectResponse streamId _ _ => some streamId
  | _ => none

/-- An operation that replaces no stream is made of moves. -/
theorem step_tableMoves {op : ManagerOp} (hop : m.replaces op = none) : TableMoves op m (m.step op) := by
  cases op with
  | openStream => exact absurd hop (Option.some_ne_none _)
  | dispatch frame =>
      cases frame with
      | data frame => exact handleData_tableMoves m frame
      | headers frame => exact handleHeaders_tableMoves m frame
      | priority frame => exact .refl
      | rstStream frame => exact handleRstStream_tableMoves m frame
      | settings frame => exact handleSettings_tableMoves m frame
      | pushPromise frame => exact absurd hop (Option.some_ne_none _)
      | ping frame => exact handlePing_tableMoves m frame
      | goaway frame => exact handleGoaway_tableMoves m frame
      | windowUpdate frame => exact tableMoves_of_moves (handleWindowUpdate_moves m frame)
      | continuation frame => exact handleContinuation_tableMoves m frame
  | sendData streamId data endStream => exact sendData_tableMoves m streamId data endStream
  | applyWindowUpdate streamId increment => exact tableMoves_of_moves (handleWindowUpdate_moves m _)
  | expectResponse streamId resolve reject => exact absurd hop (Option.some_ne_none _)
  | abortAll error => exact abortAll_tableMoves m error

/-- An operation that replaces a stream writes one stream to the table, under that id. -/
theorem step_replaces {op : ManagerOp} {id : StreamId} (hop : m.replaces op = some id) :
    (m.step op).streams = m.streams ∨ ∃ st', st'.id = id ∧ (m.step op).streams = m.streams.set st' := by
  cases op with
  | openStream => exact .inr ⟨m.newClientStream, Option.some.inj hop, rfl⟩
  | dispatch frame =>
      cases frame with
      | pushPromise frame =>
          obtain ⟨st', hchanges, hstreams⟩ := handlePushPromise_streams m frame
          exact .inr ⟨st', hchanges.id_eq.trans (Option.some.inj hop), hstreams⟩
      | _ => exact absurd hop.symm (Option.some_ne_none _)
  | expectResponse streamId resolve reject =>
      simp only [step, expectResponse]
      split
      · exact .inl rfl
      · rename_i st hget
        exact .inr ⟨{ st with resolve := some resolve, reject := some reject }, (Table.key_of_get hget).trans (Option.some.inj hop), rfl⟩
  | _ => exact absurd hop.symm (Option.some_ne_none _)

theorem step_departs (m : Manager) (op : ManagerOp) : ∀ st ∈ m.streams.entries, m.replaces op ≠ some st.id →
    (∃ st' ∈ (m.step op).streams.entries, st'.id = st.id ∧ st'.callbacks = st.callbacks) ∨ st.DepartsIn (m.newEffects op) := by
  intro st hst hop
  cases hreplaces : m.replaces op with
  | none =>
      obtain ⟨new, hnew, hkeeps⟩ := (step_tableMoves hreplaces).retains
      rw [newEffects, hnew, List.drop_left]
      exact hkeeps st hst
  | some id =>
      refine .inl ⟨st, ?_, rfl, rfl⟩
      rcases step_replaces hreplaces with hsame | ⟨st', hid, hset⟩
      · rw [hsame]
        exact hst
      · have hne : st'.id ≠ st.id := fun h => hop (hreplaces.trans (congrArg some (hid.symm.trans h)))
        rw [hset]
        exact Table.mem_of_get ((Table.get_set_ne m.streams hne).trans (Table.get_of_mem hst))

/-- What an operation adds tells of an end or is allowed besides. -/
theorem newEffects_besides (m : Manager) (op : ManagerOp) :
    ∀ effect ∈ m.newEffects op, effect.ending = true ∨ effect.besides op.announces = true := by
  cases hreplaces : m.replaces op with
  | none =>
      obtain ⟨new, hnew, hall⟩ := (step_tableMoves hreplaces).effects
      rw [newEffects, hnew, List.drop_left]
      exact hall
  | some id =>
      have hquiet : (m.step op).effects = m.effects →
          ∀ effect ∈ m.newEffects op, effect.ending = true ∨ effect.besides op.announces = true := by
        intro hsame effect heffect
        rw [newEffects, hsame, List.drop_length] at heffect
        exact absurd heffect List.not_mem_nil
      cases op with
      | openStream => exact hquiet rfl
      | dispatch frame =>
          cases frame with
          | pushPromise frame =>
              rcases handlePushPromise_announces m frame with hsame | ⟨id, headers, hnew⟩
              · exact hquiet hsame
              · intro effect heffect
                rw [newEffects, show (m.step (.dispatch (.pushPromise frame))).effects = _ from hnew, List.drop_left] at heffect
                exact .inr (List.mem_singleton.mp heffect ▸ rfl)
          | _ => exact absurd hreplaces.symm (Option.some_ne_none _)
      | expectResponse streamId resolve reject =>
          simp only [newEffects, step, expectResponse]
          split
          · rw [show (m.perform _).effects = m.effects ++ [_] from rfl, List.drop_left]
            exact fun effect heffect => .inl (List.mem_singleton.mp heffect ▸ rfl)
          · rename_i st hget
            rw [show (m.setStream _).effects = m.effects from rfl, List.drop_length]
            exact fun effect heffect => absurd heffect List.not_mem_nil
      | _ => exact absurd hreplaces.symm (Option.some_ne_none _)

/-- An id leaves the table only with the announcement that its stream has closed. -/
theorem step_keys (m : Manager) (op : ManagerOp) :
    ∀ id ∈ m.streams.keys, id ∈ (m.step op).streams.keys ∨ .emitEvent (.streamClosed id) ∈ m.newEffects op := by
  intro id hid
  obtain ⟨st, hst, rfl⟩ := List.mem_map.mp hid
  by_cases hop : m.replaces op = some st.id
  · refine .inl ?_
    rcases step_replaces hop with hsame | ⟨st', hsame, hset⟩
    · rw [hsame]
      exact hid
    · rw [hset, ← hsame]
      exact List.mem_map_of_mem (Table.mem_of_get (Table.get_set_self m.streams st'))
  · rcases m.step_departs op st hst hop with ⟨st', hst', hsame, -⟩ | hdeparts
    · exact .inl (hsame ▸ List.mem_map_of_mem hst')
    · exact .inr hdeparts.1

/-! ### Promises -/

/-- A stream of the table holds the promise. -/
def Awaits (m : Manager) (promise : Callback) (id : StreamId) : Prop :=
  ∃ st ∈ m.streams.entries, st.id = id ∧ st.callbacks = (some promise, some promise)

/-- The manager has settled the promise. -/
def HasSettled (m : Manager) (promise : Callback) : Prop :=
  (∃ response, .resolve promise response ∈ m.effects) ∨ ∃ error, .reject promise error ∈ m.effects

theorem HasSettled.mono {promise : Callback} (h : m.HasSettled promise) (heffects : m.effects <+: m'.effects) :
    m'.HasSettled promise := by
  apply h.imp
  · exact fun ⟨response, hmem⟩ => ⟨response, heffects.subset hmem⟩
  · exact fun ⟨error, hmem⟩ => ⟨error, heffects.subset hmem⟩

theorem step_awaits {promise : Callback} {id : StreamId} (h : m.Awaits promise id) {op : ManagerOp} (hop : m.replaces op ≠ some id) :
    (m.step op).Awaits promise id ∨ (m.step op).HasSettled promise := by
  obtain ⟨st, hst, rfl, hcallbacks⟩ := h
  rcases m.step_departs op st hst hop with ⟨st', hst', hid, hkept⟩ | ⟨-, hsettles⟩
  · exact .inl ⟨st', hst', hid, hkept.trans hcallbacks⟩
  · have hnew : m.newEffects op ⊆ (m.step op).effects := List.drop_subset _ _
    refine .inr ((hsettles promise promise hcallbacks).imp ?_ ?_)
    · exact fun ⟨response, hmem⟩ => ⟨response, hnew hmem⟩
    · exact fun ⟨error, hmem⟩ => ⟨error, hnew hmem⟩

/-- No stream holds a promise. -/
def NoCallbacks (m : Manager) : Prop := ∀ st ∈ m.streams.entries, st.callbacks = (none, none)

theorem NoCallbacks.step (h : m.NoCallbacks) {op : ManagerOp} (hop : op.scope ≠ .expects) : (m.step op).NoCallbacks := by
  intro st' hst'
  rcases step_streams hst' with ⟨st, hst, hchanges⟩ | ⟨-, rfl⟩ | ⟨id, hchanges⟩
  · exact (hchanges.callbacks_eq hop).trans (h st hst)
  · rfl
  · exact hchanges.callbacks_eq (by decide)

theorem NoCallbacks.not_awaits (h : m.NoCallbacks) (promise : Callback) (id : StreamId) : ¬ m.Awaits promise id := by
  rintro ⟨st, hst, -, hcallbacks⟩
  rw [h st hst] at hcallbacks
  exact absurd (Prod.mk.inj hcallbacks).1 (Option.some_ne_none promise).symm

theorem abortAll_noCallbacks (m : Manager) (error : JsError) : (m.abortAll error).NoCallbacks := by
  intro st hst
  exact absurd hst List.not_mem_nil

theorem run_nextStreamId_odd (ops : List ManagerOp) : (run ops).nextStreamId % 2 = 1 := by
  induction ops using List.reverseRecOn with
  | nil => decide
  | append_singleton ops op ih =>
      rw [run_concat, step_nextStreamId]
      split <;> omega

end Manager

end BrowsercoreHttp2
