import BrowsercoreHttp2.Stream.Enrolled

/-!
# When a response is asked for

It makes no difference when `expectResponse` is called as long as the stream is undecided. A response that is complete
by then, an error that has ended the stream, or another stream under its id is not what the callbacks would have got.
-/

namespace BrowsercoreHttp2

open Relation

/-- A complete response stays complete. -/
theorem ManagedStream.Changes.complete {scope : Scope} {st st' : ManagedStream} (h : Changes scope st st')
    (hcomplete : st.Complete) : st'.Complete := by
  apply Changes.preserves _ h hcomplete
  intro st st' hchange hcomplete
  cases hchange with
  | decoded => exact ⟨rfl, hcomplete.2⟩
  | ended =>
      rw [Complete, ManagedStream.transitionOnEndStream_eq]
      exact ⟨hcomplete.1, rfl⟩
  | _ => exact hcomplete

namespace Exchange

variable {x : Exchange} {m m' : Manager} {st : ManagedStream} {op : ManagerOp}

/-! ### Callbacks that no stream holds -/

/-- No stream holds the callbacks of the exchange. -/
def Unheld (x : Exchange) (m : Manager) : Prop :=
  ∀ st ∈ m.streams.entries, st.resolve ≠ some x.resolve ∧ st.reject ≠ some x.reject

theorem Unheld.of_callbacks (h : x.Unheld m)
    (hcomes : ∀ st' ∈ m'.streams.entries, ∃ st ∈ m.streams.entries, st'.callbacks = st.callbacks) : x.Unheld m' := by
  intro st' hst'
  obtain ⟨st, hst, hcallbacks⟩ := hcomes st' hst'
  obtain ⟨hresolve, hreject⟩ := ManagedStream.callbacks_eq_iff.mp hcallbacks
  rw [hresolve, hreject]
  exact h st hst

theorem settlement_of_not_ending {effect : Effect} (h : effect.ending = false) : x.settlement effect = none := by
  cases effect with
  | sendFrame => rfl
  | emitEvent => rfl
  | resolve => exact absurd h Bool.true_eq_false.mp
  | reject => exact absurd h Bool.true_eq_false.mp

theorem outcome_append_of_silent (effects : List Effect) {new : List Effect} (h : ∀ effect ∈ new, x.settlement effect = none) :
    x.outcome (effects ++ new) = x.outcome effects := by
  have hnothing : x.outcome new = [] := List.filterMap_eq_nil_iff.mpr h
  rw [outcome_append, hnothing, List.append_nil]

theorem outcome_rejection (x : Exchange) (err : JsError) (st : ManagedStream) :
    x.outcome (Manager.rejection err st) = if st.reject = some x.reject then [.error err] else [] := by
  rw [Manager.rejection, ← List.singleton_append, outcome_append, outcome_of_settlement rfl, List.nil_append]
  cases st.reject with
  | none => rfl
  | some callback =>
      by_cases hown : callback = x.reject
      · rw [if_pos (congrArg some hown), hown, Option.map_some, Option.toList_some]
        simp [outcome, settlement]
      · rw [if_neg (fun h => hown (Option.some.inj h)), Option.map_some, Option.toList_some]
        apply outcome_of_settlement
        rw [settlement, if_neg hown]

/-- Nothing is done about a promise whose callbacks no stream holds. -/
theorem Unheld.move (h : x.Unheld m) (hmove : Manager.TableMove op m m') : x.outcome m'.effects = x.outcome m.effects := by
  cases hmove with
  | aside new hstreams heffects hnew =>
      rw [heffects, outcome_append_of_silent]
      exact fun effect hmem => settlement_of_not_ending (Effect.ending_of_besides (hnew effect hmem))
  | written => rfl
  | @settled st hget =>
      rcases Manager.maybeResolveResponse_cases m st with hsame | ⟨resolve, hresolve, -, heffects⟩
      · rw [hsame]
      · have hother : resolve ≠ x.resolve := fun hown => (h st (Table.mem_of_get hget)).1 (hown ▸ hresolve)
        rw [heffects, outcome_append_of_silent]
        intro effect hmem
        rcases List.mem_append.mp hmem with hpush | hlast
        · split at hpush
          · rw [List.mem_singleton.mp hpush]
            rfl
          · exact absurd hpush List.not_mem_nil
        · rcases List.mem_cons.mp hlast with rfl | hresolved
          · rfl
          · rw [List.mem_singleton.mp hresolved, settlement, if_neg hother]
  | @rejected st st' hget hid hcallbacks err =>
      rw [Manager.rejectStream_effects, outcome_append, outcome_rejection, if_neg, List.append_nil]
      rw [(ManagedStream.callbacks_eq_iff.mp hcallbacks).2]
      exact (h st (Table.mem_of_get hget)).2

theorem Unheld.moves (h : x.Unheld m) (hmoves : Manager.TableMoves op m m') :
    x.Unheld m' ∧ x.outcome m'.effects = x.outcome m.effects := by
  induction hmoves with
  | refl => exact ⟨h, rfl⟩
  | @tail m₁ m₂ _ hmove ih =>
      obtain ⟨hheld, houtcome⟩ := ih
      refine ⟨hheld.of_callbacks fun st' hst' => ?_, (hheld.move hmove).trans houtcome⟩
      obtain ⟨st, hst, -, hcallbacks, -⟩ := hmove.comes st' hst'
      exact ⟨st, hst, hcallbacks⟩

theorem handlePushPromise_outcome (x : Exchange) (m : Manager) (frame : PushPromiseFrame) :
    x.outcome (m.handlePushPromise frame).1.effects = x.outcome m.effects := by
  rcases Manager.handlePushPromise_announces m frame with hsame | ⟨id, headers, hnew⟩
  · rw [hsame]
  · rw [hnew, outcome_append, outcome_of_settlement rfl, List.append_nil]

theorem Unheld.pushPromise {frame : PushPromiseFrame}
    (h : ∀ st ∈ m.streams.entries, st.id ≠ frame.promisedStreamId → st.resolve ≠ some x.resolve ∧ st.reject ≠ some x.reject) :
    x.Unheld (m.handlePushPromise frame).1 := by
  obtain ⟨pushed, hchanges, hstreams⟩ := Manager.handlePushPromise_streams m frame
  have hcallbacks : pushed.callbacks = (none, none) := hchanges.callbacks_eq (by decide)
  have hid : pushed.id = frame.promisedStreamId := hchanges.id_eq
  intro st hst
  rw [hstreams] at hst
  rcases Table.mem_set hst with rfl | ⟨hold, hne⟩
  · have hresolve : st.resolve = none := congrArg Prod.fst hcallbacks
    have hreject : st.reject = none := congrArg Prod.snd hcallbacks
    rw [hresolve, hreject]
    exact ⟨Option.some_ne_none _ |>.symm, Option.some_ne_none _ |>.symm⟩
  · exact h st hold (hid ▸ hne)

theorem Unheld.dispatch (h : x.Unheld m) (frame : Frame) :
    x.Unheld (m.dispatch frame).1 ∧ x.outcome (m.dispatch frame).1.effects = x.outcome m.effects := by
  by_cases hpush : ∃ promise, frame = .pushPromise promise
  · obtain ⟨promise, rfl⟩ := hpush
    exact ⟨Unheld.pushPromise fun st hst _ => h st hst, handlePushPromise_outcome x m promise⟩
  · have hreplaces : m.replaces (.dispatch frame) = none := by
      cases frame with
      | pushPromise promise => exact absurd ⟨promise, rfl⟩ hpush
      | _ => rfl
    exact h.moves (Manager.step_tableMoves hreplaces)

theorem Unheld.dispatchAll (h : x.Unheld m) (frames : List Frame) :
    x.Unheld (m.dispatchAll frames) ∧ x.outcome (m.dispatchAll frames).effects = x.outcome m.effects := by
  induction frames generalizing m with
  | nil => exact ⟨h, rfl⟩
  | cons frame frames ih =>
      obtain ⟨hheld, houtcome⟩ := h.dispatch frame
      rw [Manager.dispatchAll_cons, ← houtcome]
      exact ih hheld

/-! ### Frames that promise other streams -/

theorem dispatch_get {frame : Frame} {id : StreamId} (hspares : frame.Spares id) {st' : ManagedStream}
    (hget : (m.dispatch frame).1.streams.get id = some st') :
    ∃ st, m.streams.get id = some st ∧ ManagedStream.Changes (ManagerOp.dispatch frame).scope st st' := by
  by_cases hpromises : ∃ promise, frame = .pushPromise promise
  · obtain ⟨promise, rfl⟩ := hpromises
    refine ⟨st', ?_, .refl⟩
    rw [← Manager.handlePushPromise_get_ne (hspares promise rfl)]
    exact hget
  · have hevolves : Manager.Evolves (ManagerOp.dispatch frame).scope m (m.step (.dispatch frame)) := by
      apply Manager.step_evolves
      · exact ManagerOp.noConfusion
      · exact fun promise h => hpromises ⟨promise, ManagerOp.dispatch.inj h⟩
    obtain ⟨st, hst, hchanges⟩ := hevolves.streams st' (Table.mem_of_get hget)
    refine ⟨st, ?_, hchanges⟩
    rw [← Table.key_of_get hget, hchanges.id_eq]
    exact Table.get_of_mem hst

theorem Undecided.before {frame : Frame} (hspares : frame.Spares x.streamId) (h : x.Undecided (m.dispatch frame).1) :
    x.Undecided m := by
  obtain ⟨st', hget', hincomplete⟩ := h
  obtain ⟨st, hget, hchanges⟩ := dispatch_get hspares hget'
  exact ⟨st, hget, fun hcomplete => hincomplete (hchanges.complete hcomplete)⟩

theorem Unasked.dispatch {frame : Frame} (hspares : frame.Spares x.streamId) (h : x.Unasked m) :
    x.Unasked (m.dispatch frame).1 := by
  intro st' hget'
  obtain ⟨st, hget, hchanges⟩ := dispatch_get hspares hget'
  have hcallbacks : st'.callbacks = st.callbacks := by
    apply hchanges.callbacks_eq
    cases frame with
    | _ => exact Scope.noConfusion
  rw [(ManagedStream.callbacks_eq_iff.mp hcallbacks).1]
  exact h st hget

theorem dispatch_get_none {frame : Frame} (hspares : frame.Spares x.streamId) (h : m.streams.get x.streamId = none) :
    (m.dispatch frame).1.streams.get x.streamId = none := by
  by_contra hthere
  obtain ⟨st', hget'⟩ := Option.ne_none_iff_exists'.mp hthere
  obtain ⟨st, hget, -⟩ := dispatch_get hspares hget'
  exact Option.some_ne_none st (hget.symm.trans h)

/-! ### How a stream leaves that nobody waits for -/

theorem unasked_lasting : ManagedStream.Lasting fun st => st.resolve = none where
  sends _ _ _ h := h
  collects _ _ h := h
  decodes _ _ h := h
  waits _ h _ _ := h

theorem settled_unasked (m : Manager) (h : st.resolve = none) :
    ((m.setStream st).maybeResolveResponse st).Holds st.id fun st => st.resolve = none :=
  Manager.Holds.settle unasked_lasting (Manager.Holds.setStream m rfl h) (Table.get_set_self m.streams st)

theorem ended_unasked (m : Manager) (h : st.resolve = none) :
    ((m.setStream { st with endStreamSeen := true }.transitionOnEndStream).maybeResolveResponse
      { st with endStreamSeen := true }.transitionOnEndStream).Holds st.id fun st => st.resolve = none := by
  let ended := { st with endStreamSeen := true }
  have hsettled := @settled_unasked ended.transitionOnEndStream m (by rw [ManagedStream.transitionOnEndStream_eq]; exact h)
  rw [ManagedStream.transitionOnEndStream_id] at hsettled
  exact hsettled

theorem handleData_unasked {frame : DataFrame} (hget : m.streams.get frame.streamId = some st) (h : st.resolve = none) :
    (m.handleData frame).Holds frame.streamId fun st => st.resolve = none := by
  have hbuffered := Manager.afterData_eq st frame
  have hid : (Manager.afterData st frame).id = frame.streamId := by rw [hbuffered, ← Table.key_of_get hget]
  have hresolve : (Manager.afterData st frame).resolve = none := by rw [hbuffered, h]
  rw [handleData_credited hget]
  split
  · rw [← hid]
    exact ended_unasked _ hresolve
  · exact Manager.Holds.setStream _ hid hresolve

theorem handleHeaders_unasked {frame : HeadersFrame} (hget : m.streams.get frame.streamId = some st) (h : st.resolve = none) :
    (m.handleHeaders frame).1.Holds frame.streamId fun st => st.resolve = none := by
  have hkey := Table.key_of_get hget
  simp only [Manager.handleHeaders, hget]
  split
  · exact Manager.Holds.setStream m hkey h
  · split
    · rename_i st' e hdecode
      obtain ⟨hid, hcallbacks, -⟩ := Manager.kept_of_decoded hdecode
      have hresolve : st'.resolve = st.resolve := (ManagedStream.callbacks_eq_iff.mp hcallbacks).1
      exact Manager.Holds.setStream m (hid.trans hkey) (hresolve.trans h)
    · rename_i st' hdecode
      obtain ⟨hid, hcallbacks, -⟩ := Manager.kept_of_decoded hdecode
      have hresolve : st'.resolve = st.resolve := (ManagedStream.callbacks_eq_iff.mp hcallbacks).1
      have hpromoted := ManagedStream.promoteReserved_eq st'
      have hnobody : st'.promoteReserved.resolve = none := by rw [hpromoted, hresolve, h]
      have hid' : st'.promoteReserved.id = frame.streamId := by rw [hpromoted, hid, hkey]
      rw [← hid']
      split
      · exact ended_unasked m hnobody
      · exact settled_unasked m hnobody

/-- Only RST_STREAM and GOAWAY take such a stream out of the table. -/
theorem dispatch_ends {frame : Frame} (hspares : frame.Spares x.streamId) (hget : m.streams.get x.streamId = some st)
    (h : st.resolve = none) (hgone : (m.dispatch frame).1.streams.get x.streamId = none) :
    (∃ reset, frame = .rstStream reset ∧ reset.streamId = x.streamId) ∨
      ∃ goaway, frame = .goaway goaway ∧ goaway.lastStreamId < x.streamId := by
  have hstays : ¬ (m.dispatch frame).1.Holds x.streamId fun st => st.resolve = none := by
    rintro ⟨st', hget', -⟩
    exact Option.some_ne_none st' (hget'.symm.trans hgone)
  by_cases htouches : frame.Touches x.streamId
  · cases frame with
    | data frame =>
        have hid : frame.streamId = x.streamId := htouches
        rw [← hid] at hget hstays
        exact absurd (handleData_unasked hget h) hstays
    | headers frame =>
        have hid : frame.streamId = x.streamId := htouches
        rw [← hid] at hget hstays
        exact absurd (handleHeaders_unasked hget h) hstays
    | rstStream reset => exact .inl ⟨reset, rfl, htouches⟩
    | pushPromise promise => exact absurd htouches (hspares promise rfl)
    | goaway goaway => exact .inr ⟨goaway, rfl, htouches⟩
    | _ => exact htouches.elim
  · exact absurd (Manager.Holds.other unasked_lasting ⟨st, hget, h⟩ htouches) hstays

/-! ### What the callbacks get from the frame that ends the stream -/

theorem mem_of_mem_enrolled (h : st ∈ (x.enrolled m).streams.entries) (hne : st.id ≠ x.streamId) :
    st ∈ m.streams.entries := by
  have hget := Table.get_of_mem h
  rw [enrolled_get] at hget
  obtain ⟨w, hw, hsame⟩ := Option.map_eq_some_iff.mp hget
  have hother : w.id ≠ x.streamId := by
    rw [Table.key_of_get hw]
    exact hne
  rw [← hsame, enrol_of_ne hother]
  exact Table.mem_of_get hw

theorem enrolled_reset (hget : m.streams.get x.streamId = some st) (hheld : x.Unheld m) {reset : RstStreamFrame}
    (hid : reset.streamId = x.streamId) :
    x.Unheld ((x.enrolled m).handleRstStream reset) ∧
      x.outcome ((x.enrolled m).handleRstStream reset).effects =
        x.outcome m.effects ++ [.error (.http2 (.rstStream x.streamId reset.errorCode))] := by
  have hkey := Table.key_of_get hget
  have hlookup : (x.enrolled m).streams.get reset.streamId = some (x.enrol st) := by
    rw [enrolled_get, hid, hget, Option.map_some]
  simp only [Manager.handleRstStream, hlookup]
  constructor
  · intro w hw
    rw [Manager.rejectStream_streams] at hw
    obtain ⟨hmem, hne⟩ := Table.mem_delete.mp hw
    exact hheld w (mem_of_mem_enrolled hmem fun h => hne (h.trans hkey.symm))
  · rw [Manager.rejectStream_effects, outcome_append, outcome_rejection, if_pos, hid]
    · rfl
    · exact if_pos hkey

theorem enrolled_goaway (x : Exchange) (m : Manager) (goaway : GoawayFrame) :
    ∃ new, x.outcome ((x.enrolled m).handleGoaway goaway).effects = x.outcome m.effects ++ new ∧
      ∀ result ∈ new, result =
        .error (.http2 (.goawayReceived goaway.lastStreamId goaway.errorCode goaway.debugData)) := by
  rw [(Manager.handleGoaway_rejects (x.enrolled m) goaway).2, outcome_append]
  refine ⟨_, rfl, fun result hmem => ?_⟩
  obtain ⟨effect, heffect, hsettles⟩ := List.mem_filterMap.mp hmem
  rcases List.mem_cons.mp heffect with rfl | hrejected
  · exact absurd hsettles (Option.some_ne_none result).symm
  · obtain ⟨w, -, hrejection⟩ := List.mem_flatMap.mp hrejected
    have hresult : result ∈ x.outcome (Manager.rejection _ w) := List.mem_filterMap.mpr ⟨effect, hrejection, hsettles⟩
    rw [outcome_rejection] at hresult
    split at hresult
    · exact List.mem_singleton.mp hresult
    · exact absurd hresult List.not_mem_nil

/-! ### Registering -/

theorem register_of_none (hget : m.streams.get x.streamId = none) :
    x.register m = m.perform (.reject x.reject (.http2 (.rstStream x.streamId 0x1))) := by
  simp only [register, Manager.expectResponse, hget]

theorem register_of_none_outcome (hget : m.streams.get x.streamId = none) (hheld : x.Unheld m) :
    x.Unheld (x.register m) ∧
      x.outcome (x.register m).effects = x.outcome m.effects ++ [.error (.http2 (.rstStream x.streamId 0x1))] := by
  rw [register_of_none hget]
  refine ⟨hheld, ?_⟩
  rw [Manager.perform, outcome_append]
  simp [outcome, settlement]

theorem register_of_get_outcome (hget : m.streams.get x.streamId = some st) :
    x.outcome (x.register m).effects = x.outcome m.effects := by
  rw [register_of_get hget]
  rfl

/-! ### Any order -/

/-- Wherever between these frames the response is asked for, the callbacks get what they get when it is asked for before
them, whatever follows; and a response that is complete by then resolves the promise, and its stream leaves the table. -/
def AnyOrder (x : Exchange) (m : Manager) (frames : List Frame) : Prop :=
  ∀ before rest, frames = before ++ rest →
    (∀ after, x.outcome ((x.register (m.dispatchAll before)).dispatchAll after).effects =
      x.outcome ((x.register m).dispatchAll (before ++ after)).effects) ∧
    ∀ st, (m.dispatchAll before).streams.get x.streamId = some st → st.Complete →
      x.outcome (x.register (m.dispatchAll before)).effects = x.outcome (m.dispatchAll before).effects ++ [.ok st.response] ∧
        (x.register (m.dispatchAll before)).streams.get x.streamId = none

/-- The frames leave the stream undecided, or an RST_STREAM with the code that a stream that is not there is said to have
ends it, and none of them promises it. -/
def OrderFree (x : Exchange) (m : Manager) (frames : List Frame) : Prop :=
  (∀ frame ∈ frames, frame.Spares x.streamId) ∧
    (x.Undecided (m.dispatchAll frames) ∨
      ∃ before reset after, frames = before ++ .rstStream reset :: after ∧ reset.streamId = x.streamId ∧ reset.errorCode = 0x1 ∧
        x.Undecided (m.dispatchAll before))

variable {frame : Frame} {frames : List Frame}

theorem Undecided.before_all (hspares : ∀ frame ∈ frames, frame.Spares x.streamId) (h : x.Undecided (m.dispatchAll frames)) :
    x.Undecided m := by
  induction frames generalizing m with
  | nil => exact h
  | cons frame frames ih =>
      obtain ⟨hfirst, hrest⟩ := List.forall_mem_cons.mp hspares
      rw [Manager.dispatchAll_cons] at h
      exact (ih hrest h).before hfirst

theorem dispatchAll_get_none (hspares : ∀ frame ∈ frames, frame.Spares x.streamId) (h : m.streams.get x.streamId = none) :
    (m.dispatchAll frames).streams.get x.streamId = none := by
  induction frames generalizing m with
  | nil => exact h
  | cons frame frames ih =>
      obtain ⟨hfirst, hrest⟩ := List.forall_mem_cons.mp hspares
      rw [Manager.dispatchAll_cons]
      exact ih hrest (dispatch_get_none hfirst h)

theorem OrderFree.head (h : x.OrderFree m (frame :: frames)) :
    x.Undecided (m.dispatch frame).1 ∨
      ∃ reset, frame = .rstStream reset ∧ reset.streamId = x.streamId ∧ reset.errorCode = 0x1 := by
  obtain ⟨hspares, hundecided | ⟨before, reset, after, hframes, hid, hcode, hbefore⟩⟩ := h
  · rw [Manager.dispatchAll_cons] at hundecided
    exact .inl (hundecided.before_all (List.forall_mem_cons.mp hspares).2)
  · cases before with
    | nil => exact .inr ⟨reset, (List.cons.inj hframes).1, hid, hcode⟩
    | cons first before =>
        obtain ⟨rfl, rfl⟩ := List.cons.inj hframes
        rw [Manager.dispatchAll_cons] at hbefore
        apply Or.inl
        apply hbefore.before_all
        exact fun frame hmem => hspares frame (List.mem_cons_of_mem _ (List.mem_append_left _ hmem))

theorem OrderFree.undecided (h : x.OrderFree m frames) : x.Undecided m := by
  obtain ⟨hspares, hundecided | ⟨before, reset, after, rfl, -, -, hbefore⟩⟩ := h
  · exact hundecided.before_all hspares
  · exact hbefore.before_all fun frame hmem => hspares frame (List.mem_append_left _ hmem)

theorem orderFree_cons (hspares : frame.Spares x.streamId) (hafter : x.Undecided (m.dispatch frame).1) :
    x.OrderFree m (frame :: frames) ↔ x.OrderFree (m.dispatch frame).1 frames := by
  constructor
  · rintro ⟨hall, hundecided | ⟨before, reset, after, hframes, hid, hcode, hbefore⟩⟩
    · exact ⟨(List.forall_mem_cons.mp hall).2, .inl hundecided⟩
    · refine ⟨(List.forall_mem_cons.mp hall).2, .inr ?_⟩
      cases before with
      | nil =>
          obtain ⟨st, hget, -⟩ := hafter
          obtain ⟨rfl, -⟩ := List.cons.inj hframes
          have hgone := handleRstStream_get m reset
          rw [hid] at hgone
          exact absurd (hget.symm.trans hgone) (Option.some_ne_none st)
      | cons first before =>
          obtain ⟨rfl, rfl⟩ := List.cons.inj hframes
          exact ⟨before, reset, after, rfl, hid, hcode, hbefore⟩
  · rintro ⟨hall, hundecided | ⟨before, reset, after, rfl, hid, hcode, hbefore⟩⟩
    · exact ⟨List.forall_mem_cons.mpr ⟨hspares, hall⟩, .inl hundecided⟩
    · exact ⟨List.forall_mem_cons.mpr ⟨hspares, hall⟩, .inr ⟨frame :: before, reset, after, rfl, hid, hcode, hbefore⟩⟩

/-- What follows a frame that leaves the stream undecided. -/
theorem anyOrder_cons (hget : m.streams.get x.streamId = some st) (hresolve : st.resolve = none) (hincomplete : ¬ st.Complete)
    (hspares : frame.Spares x.streamId) (hafter : x.Undecided (m.dispatch frame).1) :
    x.AnyOrder m (frame :: frames) ↔ x.AnyOrder (m.dispatch frame).1 frames := by
  obtain ⟨st₁, hget₁, -⟩ := id hafter
  have hunasked : x.Unasked m := fun w hw => Option.some.inj (hw.symm.trans hget) ▸ hresolve
  have hcommutes : ∀ before,
      (x.register m).dispatchAll (frame :: before) = (x.register (m.dispatch frame).1).dispatchAll before := by
    intro before
    rw [register_of_get hget, register_of_get hget₁, Manager.dispatchAll_cons, enrolled_dispatch hunasked hafter hspares]
  constructor
  · intro h before rest hframes
    have hbefore := h (frame :: before) rest (by rw [hframes, List.cons_append])
    rw [Manager.dispatchAll_cons] at hbefore
    refine ⟨fun after => ?_, hbefore.2⟩
    rw [hbefore.1, List.cons_append, hcommutes]
  · intro h before rest hframes
    cases before with
    | nil =>
        refine ⟨fun after => rfl, fun w hw hcomplete => ?_⟩
        obtain rfl := Option.some.inj (hget.symm.trans hw)
        exact absurd hcomplete hincomplete
    | cons first before =>
        obtain ⟨rfl, rfl⟩ := List.cons.inj hframes
        have hbefore := h before rest rfl
        rw [Manager.dispatchAll_cons]
        refine ⟨fun after => ?_, hbefore.2⟩
        rw [hbefore.1, List.cons_append, hcommutes]

theorem not_anyOrder_of_complete {before rest : List Frame} (hget : (m.dispatchAll before).streams.get x.streamId = some st)
    (hcomplete : st.Complete) : ¬ x.AnyOrder m (before ++ rest) := by
  intro h
  have hdelivered := ((h before rest rfl).2 st hget hcomplete).1
  rw [register_of_get_outcome hget] at hdelivered
  exact List.cons_ne_nil _ _ (List.self_eq_append_right.mp hdelivered)

theorem AnyOrder.ended (h : x.AnyOrder m (frame :: frames)) (hget : m.streams.get x.streamId = some st) (hheld : x.Unheld m)
    (hgone : (m.dispatch frame).1.streams.get x.streamId = none) :
    x.outcome ((x.enrolled m).dispatch frame).1.effects =
      x.outcome m.effects ++ [.error (.http2 (.rstStream x.streamId 0x1))] := by
  obtain ⟨hheld₁, houtcome⟩ := hheld.dispatch frame
  have hlate := (h [frame] frames rfl).1 []
  rw [register_of_get hget] at hlate
  have hrejected := (register_of_none_outcome hgone hheld₁).2
  rw [houtcome] at hrejected
  rw [← hrejected]
  exact hlate.symm

theorem handlePushPromise_get (m : Manager) (promise : PushPromiseFrame) :
    ∃ st, (m.handlePushPromise promise).1.streams.get promise.promisedStreamId = some st ∧ st.callbacks = (none, none) := by
  obtain ⟨pushed, hchanges, hstreams⟩ := Manager.handlePushPromise_streams m promise
  refine ⟨pushed, ?_, hchanges.callbacks_eq (by decide)⟩
  rw [hstreams, ← (show pushed.id = promise.promisedStreamId from hchanges.id_eq)]
  exact Table.get_set_self m.streams pushed

/-- Callbacks that are registered before the id is promised again are never called, those that are registered after it get
what becomes of the push. -/
theorem not_anyOrder_of_promise {promise : PushPromiseFrame} (hid : promise.promisedStreamId = x.streamId)
    (hget : m.streams.get x.streamId = some st) (hheld : x.Unheld m) : ¬ x.AnyOrder m (.pushPromise promise :: frames) := by
  intro h
  let m₁ := (m.handlePushPromise promise).1
  let reset : RstStreamFrame := ⟨0, x.streamId, 0⟩
  have horder := (h [.pushPromise promise] frames rfl).1 [.rstStream reset]
  have hearly : x.outcome ((x.register m).dispatchAll [.pushPromise promise, .rstStream reset]).effects =
      x.outcome m.effects := by
    have hdisplaced : x.Unheld ((x.enrolled m).handlePushPromise promise).1 := by
      apply Unheld.pushPromise
      intro w hw hne
      exact hheld w (mem_of_mem_enrolled hw (hid ▸ hne))
    have hsilent := (hdisplaced.dispatchAll [.rstStream reset]).2
    rw [handlePushPromise_outcome] at hsilent
    rw [register_of_get hget, Manager.dispatchAll_cons]
    exact hsilent
  have hlate : x.outcome ((x.register m₁).dispatchAll [.rstStream reset]).effects =
      x.outcome m.effects ++ [.error (.http2 (.rstStream x.streamId 0))] := by
    obtain ⟨pushed, hpushed, -⟩ := handlePushPromise_get m promise
    rw [hid] at hpushed
    have hheld₁ := (hheld.dispatch (.pushPromise promise)).1
    have hended := (@enrolled_reset x m₁ pushed hpushed hheld₁ reset rfl).2
    rw [handlePushPromise_outcome] at hended
    rw [register_of_get hpushed]
    exact hended
  rw [List.singleton_append, hearly] at horder
  have hgrown := hlate.symm.trans horder
  exact List.cons_ne_nil _ _ (List.append_right_eq_self.mp hgrown)

/-- After the RST_STREAM the callbacks get the same error as before it, until the id is promised again. -/
theorem anyOrder_reset_iff {reset : RstStreamFrame} (hid : reset.streamId = x.streamId) (hcode : reset.errorCode = 0x1)
    (hget : m.streams.get x.streamId = some st) (hincomplete : ¬ st.Complete) (hheld : x.Unheld m) :
    x.AnyOrder m (.rstStream reset :: frames) ↔ ∀ frame ∈ frames, frame.Spares x.streamId := by
  have hgone : (m.handleRstStream reset).streams.get x.streamId = none := hid ▸ handleRstStream_get m reset
  obtain ⟨hheld₁, houtcome₁⟩ := hheld.dispatch (.rstStream reset)
  have hearly : ∀ after, x.outcome ((x.register m).dispatchAll (.rstStream reset :: after)).effects =
      x.outcome m.effects ++ [.error (.http2 (.rstStream x.streamId 0x1))] := by
    intro after
    obtain ⟨hheldEarly, houtcomeEarly⟩ := enrolled_reset hget hheld hid
    rw [hcode] at houtcomeEarly
    rw [register_of_get hget, Manager.dispatchAll_cons]
    exact (hheldEarly.dispatchAll after).2.trans houtcomeEarly
  constructor
  · intro h frame hmem promise hpromise hpromised
    subst hpromise
    obtain ⟨before, rest, rfl⟩ := List.append_of_mem hmem
    have horder := (h (.rstStream reset :: (before ++ [.pushPromise promise])) rest (by simp)).1 []
    rw [List.append_nil, hearly, Manager.dispatchAll_nil, Manager.dispatchAll_cons, Manager.dispatchAll_append] at horder
    obtain ⟨pushed, hpushed, -⟩ := handlePushPromise_get ((m.dispatch (.rstStream reset)).1.dispatchAll before) promise
    rw [hpromised] at hpushed
    have hlate :
        x.outcome (x.register (((m.dispatch (.rstStream reset)).1.dispatchAll before).handlePushPromise promise).1).effects =
          x.outcome m.effects := by
      rw [register_of_get_outcome hpushed, handlePushPromise_outcome, (hheld₁.dispatchAll before).2, houtcome₁]
    have hgrown := hlate.symm.trans horder
    exact List.cons_ne_nil _ _ (List.self_eq_append_right.mp hgrown)
  · intro hspares before rest hframes
    cases before with
    | nil =>
        refine ⟨fun after => rfl, fun w hw hcomplete => ?_⟩
        obtain rfl := Option.some.inj (hget.symm.trans hw)
        exact absurd hcomplete hincomplete
    | cons first before =>
        obtain ⟨rfl, rfl⟩ := List.cons.inj hframes
        rw [Manager.dispatchAll_cons]
        obtain ⟨hheldLate, houtcomeLate⟩ := hheld₁.dispatchAll before
        have habsent : ((m.dispatch (.rstStream reset)).1.dispatchAll before).streams.get x.streamId = none :=
          dispatchAll_get_none (fun frame hmem => hspares frame (List.mem_append_left _ hmem)) hgone
        obtain ⟨hheldRejected, hrejected⟩ := register_of_none_outcome habsent hheldLate
        refine ⟨fun after => ?_, fun w hw _ => absurd (hw.symm.trans habsent) (Option.some_ne_none w)⟩
        rw [List.cons_append, hearly, (hheldRejected.dispatchAll after).2, hrejected, houtcomeLate, houtcome₁]

theorem Undecided.there (h : x.Undecided m) : m.streams.get x.streamId ≠ none := by
  obtain ⟨st, hget, -⟩ := h
  rw [hget]
  exact Option.some_ne_none st

/-- The first frame takes the stream out of the table. -/
theorem anyOrder_iff_of_gone (hget : m.streams.get x.streamId = some st) (hresolve : st.resolve = none)
    (hincomplete : ¬ st.Complete) (hheld : x.Unheld m) (hspares : frame.Spares x.streamId)
    (hgone : (m.dispatch frame).1.streams.get x.streamId = none) :
    x.AnyOrder m (frame :: frames) ↔ x.OrderFree m (frame :: frames) := by
  rcases dispatch_ends hspares hget hresolve hgone with ⟨reset, rfl, hid⟩ | ⟨goaway, rfl, hlast⟩
  · by_cases hcode : reset.errorCode = 0x1
    · rw [anyOrder_reset_iff hid hcode hget hincomplete hheld]
      constructor
      · intro hall
        refine ⟨List.forall_mem_cons.mpr ⟨hspares, hall⟩, .inr ⟨[], reset, frames, rfl, hid, hcode, ?_⟩⟩
        exact ⟨st, hget, hincomplete⟩
      · exact fun h => (List.forall_mem_cons.mp h.1).2
    · apply iff_of_false
      · intro h
        have hended := (enrolled_reset hget hheld hid).2.symm.trans (h.ended hget hheld hgone)
        simp only [List.append_cancel_left_eq, List.cons.injEq, Except.error.injEq, JsError.http2.injEq,
          Http2Error.rstStream.injEq, true_and, and_true] at hended
        exact hcode hended
      · intro h
        rcases h.head with hundecided | ⟨reset', hsame, -, hcode'⟩
        · exact hundecided.there hgone
        · obtain rfl := Frame.rstStream.inj hsame
          exact hcode hcode'
  · apply iff_of_false
    · intro h
      obtain ⟨new, hnew, hall⟩ := enrolled_goaway x m goaway
      have hended := hnew.symm.trans (h.ended hget hheld hgone)
      have hresult := hall _ (by rw [List.append_cancel_left hended]; exact List.mem_singleton_self _)
      simp at hresult
    · intro h
      rcases h.head with hundecided | ⟨reset, hsame, -⟩
      · exact hundecided.there hgone
      · exact Frame.noConfusion hsame

/-- A stream that is neither asked for nor complete: a frame leaves it so, completes it, takes it out of the table or puts
another in its place. -/
theorem anyOrder_iff_of_incomplete (hget : m.streams.get x.streamId = some st) (hresolve : st.resolve = none)
    (hincomplete : ¬ st.Complete) (hheld : x.Unheld m) : x.AnyOrder m frames ↔ x.OrderFree m frames := by
  induction frames generalizing m st with
  | nil =>
      apply iff_of_true
      · intro before rest hframes
        obtain ⟨rfl, -⟩ := List.nil_eq_append_iff.mp hframes
        refine ⟨fun after => rfl, fun w hw hcomplete => ?_⟩
        obtain rfl := Option.some.inj (hget.symm.trans hw)
        exact absurd hcomplete hincomplete
      · exact ⟨fun _ hmem => absurd hmem List.not_mem_nil, .inl ⟨st, hget, hincomplete⟩⟩
  | cons frame frames ih =>
      by_cases hspares : frame.Spares x.streamId
      · cases hafter : (m.dispatch frame).1.streams.get x.streamId with
        | none => exact anyOrder_iff_of_gone hget hresolve hincomplete hheld hspares hafter
        | some st₁ =>
            by_cases hcomplete : st₁.Complete
            · apply iff_of_false
              · exact @not_anyOrder_of_complete x m st₁ [frame] frames hafter hcomplete
              · intro h
                rcases h.head with hundecided | ⟨reset, rfl, hid, -⟩
                · exact hundecided.unfinished st₁ hafter hcomplete
                · exact Option.some_ne_none st₁ (hafter.symm.trans (hid ▸ handleRstStream_get m reset))
            · have hundecided : x.Undecided (m.dispatch frame).1 := ⟨st₁, hafter, hcomplete⟩
              have hunasked : x.Unasked m := fun w hw => Option.some.inj (hw.symm.trans hget) ▸ hresolve
              rw [anyOrder_cons hget hresolve hincomplete hspares hundecided, orderFree_cons hspares hundecided]
              exact ih hafter (hunasked.dispatch hspares st₁ hafter) hcomplete (hheld.dispatch frame).1
      · apply iff_of_false
        · simp only [Frame.Spares, not_forall, not_not] at hspares
          obtain ⟨promise, rfl, hpromised⟩ := hspares
          exact not_anyOrder_of_promise hpromised hget hheld
        · exact fun h => hspares (List.forall_mem_cons.mp h.1).1

end Exchange

/-- For a stream in the table whose response has not been asked for, and callbacks that no stream holds: what the callbacks
get does not depend on where between the frames `expectResponse` is called, and a response that is complete by then
resolves the promise, if and only if the frames leave the stream undecided or end it with the code of a stream that is
not there. -/
theorem registration_order_iff (x : Exchange) (m : Manager) (st : ManagedStream) (frames : List Frame)
    (hget : m.streams.get x.streamId = some st) (hresolve : st.resolve = none) (hheld : x.Unheld m) :
    x.AnyOrder m frames ↔ x.OrderFree m frames := by
  by_cases hcomplete : st.Complete
  · apply iff_of_false
    · exact @Exchange.not_anyOrder_of_complete x m st [] frames hget hcomplete
    · exact fun h => h.undecided.unfinished st hget hcomplete
  · exact Exchange.anyOrder_iff_of_incomplete hget hresolve hcomplete hheld

theorem registration_order_iff_opened :
    let x : Exchange := ⟨1, 0, 0⟩
    let frames := [headersFrame 1 true false [0x88], .rstStream ⟨0, 1, 0x1⟩]
    x.AnyOrder (Manager.run [.openStream]) frames ↔ x.OrderFree (Manager.run [.openStream]) frames := by
  intro x frames
  apply registration_order_iff x (Manager.run [.openStream]) (Manager.newClientStream .create)
  · decide +kernel
  · rfl
  · show ∀ st ∈ (Manager.run [.openStream]).streams.entries, st.resolve ≠ some 0 ∧ st.reject ≠ some 0
    decide +kernel

/-- The whole response arrives in one frame: asked for before, it resolves the promise; asked for after, it does not, and
the stream stays. -/
theorem completeResponse_undelivered :
    let x : Exchange := ⟨1, 0, 0⟩
    let m := Manager.run [.openStream]
    let frames := [headersFrame 1 true true [0x88]]
    ¬ x.AnyOrder m frames ∧
      x.outcome ((x.register m).dispatchAll frames).effects = [.ok ⟨200, (Table.empty : HeaderMap).set ("status", "200"), []⟩] ∧
      x.outcome (x.register (m.dispatchAll frames)).effects = [] ∧
      ((x.register (m.dispatchAll frames)).streams.get 1).isSome = true := by
  intro x m frames
  have hearly : x.outcome ((x.register m).dispatchAll frames).effects =
      [.ok ⟨200, (Table.empty : HeaderMap).set ("status", "200"), []⟩] := by decide +kernel
  have hlate : x.outcome (x.register (m.dispatchAll frames)).effects = [] := by decide +kernel
  refine ⟨fun h => ?_, hearly, hlate, by decide +kernel⟩
  have horder := (h frames [] (List.append_nil _).symm).1 []
  rw [List.append_nil, hearly, Manager.dispatchAll_nil, hlate] at horder
  exact List.cons_ne_nil _ _ horder.symm

/-- A stream that was reset with CANCEL is said to have been reset with PROTOCOL_ERROR. -/
example :
    let x : Exchange := ⟨1, 0, 0⟩
    let m := Manager.run [.openStream]
    x.outcome ((x.register m).dispatchAll [.rstStream ⟨0, 1, 0x8⟩]).effects = [.error (.http2 (.rstStream 1 0x8))] ∧
      x.outcome (x.register (m.dispatchAll [.rstStream ⟨0, 1, 0x8⟩])).effects = [.error (.http2 (.rstStream 1 0x1))] := by
  decide +kernel

end BrowsercoreHttp2
