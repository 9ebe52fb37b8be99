import BrowsercoreHttp2.Connection.ActiveStreams
import BrowsercoreHttp2.Connection.Waiters

/-!
# Settled requests

From the moment `request()` is called its promise is either settled, or the call is on its way to a stream, or
a stream of the table holds the promise. Once the connection is closed no stream holds one and nobody waits,
so when no call is left to run every promise has been settled.
-/

namespace BrowsercoreHttp2

namespace Http2Connection

/-- The promise has been settled, by the connection or by the manager. -/
def HasSettled (c : Http2Connection) (promise : Callback) : Prop :=
  (∃ error, .reject promise error ∈ c.effects) ∨ c.manager.HasSettled promise

/-- The promise has been settled, or a client stream whose id is below `bound` holds it. -/
def Holds (c : Http2Connection) (bound : StreamId) (promise : Callback) : Prop :=
  c.HasSettled promise ∨ ∃ id < bound, id % 2 = 1 ∧ c.manager.Awaits promise id

/-- Once the connection is closed, no call waits for a slot and no stream holds a promise. -/
def Emptied (c : Http2Connection) : Prop := c.closed = true → c.slotWaiters = [] ∧ c.manager.NoCallbacks

variable {c c' : Http2Connection} {call : RequestCall} {promise : Callback} {bound : StreamId}

/-! ### Promises that are held -/

theorem HasSettled.mono (h : c.HasSettled promise) (hmanager : c.manager.effects <+: c'.manager.effects) (heffects : c.effects <+: c'.effects) :
    c'.HasSettled promise := by
  apply h.imp
  · exact fun ⟨error, hmem⟩ => ⟨error, heffects.subset hmem⟩
  · exact fun hsettled => hsettled.mono hmanager

theorem Holds.same (h : c.Holds bound promise) (hmanager : c'.manager = c.manager) (heffects : c.effects <+: c'.effects) :
    c'.Holds bound promise := by
  apply h.imp
  · exact fun hsettled => hsettled.mono (hmanager ▸ List.prefix_rfl) heffects
  · exact fun hawaits => hmanager.symm ▸ hawaits

theorem Holds.mono (h : c.Holds bound promise) {bound' : StreamId} (hbound : bound ≤ bound') : c.Holds bound' promise := by
  refine h.imp_right ?_
  rintro ⟨id, hid, hodd, hawaits⟩
  exact ⟨id, hid.trans_le hbound, hodd, hawaits⟩

theorem Holds.step (h : c.Holds bound promise) {op : ManagerOp}
    (hop : ∀ id, c.manager.replaces op = some id → id % 2 = 0 ∨ bound ≤ id) (hmanager : c'.manager = c.manager.step op)
    (heffects : c.effects <+: c'.effects) : c'.Holds bound promise := by
  have hgrows : c.manager.effects <+: c'.manager.effects := hmanager.symm ▸ c.manager.step_effects op
  rcases h with hsettled | ⟨id, hid, hodd, hawaits⟩
  · exact .inl (hsettled.mono hgrows heffects)
  · have hkept : c.manager.replaces op ≠ some id := by
      intro hreplaces
      rcases hop id hreplaces with heven | habove
      · exact absurd (heven.symm.trans hodd) (by decide)
      · exact absurd hid (not_lt.mpr habove)
    rcases Manager.step_awaits hawaits hkept with hawaits | hsettled
    · exact .inr ⟨id, hid, hodd, hmanager.symm ▸ hawaits⟩
    · exact .inl (.inr (hmanager.symm ▸ hsettled))

theorem Holds.manage (h : c.Holds bound promise) {op : ManagerOp}
    (hop : ∀ id, c.manager.replaces op = some id → id % 2 = 0 ∨ bound ≤ id) : (c.manage op).Holds bound promise :=
  h.step hop (managed_manager c _) (manage_effects c op)

theorem Holds.tornDown (h : c.Holds bound promise) {err : JsError} (htorn : TornDown c c' err) : c'.Holds bound promise :=
  h.step (fun _ hreplaces => absurd hreplaces.symm (Option.some_ne_none _)) htorn.manager htorn.effects

theorem Holds.openRequestStream (h : c.Holds c.manager.nextStreamId promise) :
    c.openRequestStream.Holds c.manager.nextStreamId promise := by
  have hopened := @Holds.manage c promise c.manager.nextStreamId h .openStream fun id hreplaces => .inr (Option.some.inj hreplaces).le
  exact hopened.same rfl List.prefix_rfl

theorem Holds.executeRequest (h : c.Holds bound promise) {streamId : StreamId} (hid : bound ≤ streamId) (call : RequestCall) :
    (c.executeRequest streamId call).Holds bound promise := by
  have hhears := (Hears.delete c streamId).trans (.releaseSlot _)
  apply executeRequest_induction (motive := fun c' => c'.Holds bound promise) c streamId call
  · exact fun _ => h.same hhears.manager hhears.effects
  · exact fun _ => h.manage fun id hreplaces => .inr (hid.trans (Option.some.inj hreplaces).le)
  · exact fun c' effect _ hbefore => hbefore.same rfl (List.prefix_append _ _)
  · exact fun c' data hbefore => hbefore.manage fun _ hreplaces => absurd hreplaces.symm (Option.some_ne_none _)

/-! ### A request of its own -/

/-- The executor of a request settles its promise or leaves it with the stream. -/
theorem executeRequest_holds {st : ManagedStream} (hget : c.manager.streams.get st.id = some st) (hbelow : st.id < bound)
    (hodd : st.id % 2 = 1) (call : RequestCall) : (c.executeRequest st.id call).Holds bound call.promise := by
  have hexpected : (c.manage (.expectResponse st.id call.promise call.promise)).Holds bound call.promise := by
    rw [manage_expectResponse_eq hget]
    let st' : ManagedStream := { st with resolve := some call.promise, reject := some call.promise }
    exact .inr ⟨st.id, hbelow, hodd, st', Table.mem_of_get (Table.get_set_self c.manager.streams st'), rfl, rfl⟩
  rcases c.executeRequest_cases st.id call with ⟨-, hturned⟩ | ⟨-, ⟨e, hfailed⟩ | ⟨frame, hsent | hbody⟩⟩
  · rw [hturned]
    exact .inl (.inl ⟨c.closingError, List.mem_append_right _ List.mem_cons_self⟩)
  · rw [hfailed]
    exact .inl (.inl ⟨e, List.mem_append_right _ List.mem_cons_self⟩)
  · rw [hsent]
    exact hexpected.same rfl (List.prefix_append _ _)
  · have hheaders : ((c.manage (.expectResponse st.id call.promise call.promise)).sendFrame (.headers frame)).Holds bound call.promise :=
      hexpected.same rfl (List.prefix_append _ _)
    rw [hbody]
    exact hheaders.manage fun _ hreplaces => absurd hreplaces.symm (Option.some_ne_none _)

theorem resume_holds (hcall : call ∈ c.granted) (hodd : c.manager.nextStreamId % 2 = 1) :
    (c.resume call).Holds (c.resume call).manager.nextStreamId call.promise := by
  rw [resume, if_pos hcall]
  refine Holds.mono ?_ (executeRequest_advances _ _ call).nextStreamId_le
  rw [openRequestStream_eq]
  exact @executeRequest_holds _ _ c.manager.newClientStream (openStream_get c.manager) (Nat.lt_add_of_pos_right (by decide)) hodd call

/-! ### One step -/

/-- A step keeps a promise held or settled, if it promises no odd id. -/
theorem Holds.moves {s : ConnectionStep} (h : c.Holds c.manager.nextStreamId promise) (hmoves : Moves c s c')
    (hpush : ∀ frame, s = .receiveFrame (.pushPromise frame) → frame.promisedStreamId % 2 = 0) : c'.Holds c'.manager.nextStreamId promise := by
  have hmanaged : ∀ frame, s = .receiveFrame frame → (c.manage (.dispatch frame)).Holds c.manager.nextStreamId promise := by
    intro frame hframe
    refine h.manage fun id hreplaces => ?_
    cases frame with
    | pushPromise frame =>
        obtain rfl : frame.promisedStreamId = id := Option.some.inj hreplaces
        exact .inl (hpush frame hframe)
    | _ => exact absurd hreplaces.symm (Option.some_ne_none _)
  refine Holds.mono ?_ hmoves.advances.nextStreamId_le
  cases hmoves with
  | aside haside => exact h.same haside.manager haside.effects
  | requested call hopen =>
      rw [acquireSlot]
      split <;> exact h.same rfl List.prefix_rfl
  | woke call hcall =>
      rw [acquireSlot]
      split <;> exact h.same rfl List.prefix_rfl
  | resumed call hcall =>
      have hgranted : ({ c with granted := c.granted.erase call } : Http2Connection).Holds c.manager.nextStreamId promise :=
        h.same rfl List.prefix_rfl
      rw [resume, if_pos hcall]
      exact hgranted.openRequestStream.executeRequest le_rfl call
  | leaving lastStreamId errorCode debugData => exact h.same rfl (List.prefix_append _ _)
  | tornDown hopen htorn => exact h.tornDown htorn
  | received frame hreading haside => exact (hmanaged frame rfl).same haside.manager haside.effects
  | failed frame hreading hopen htorn => exact (hmanaged frame rfl).tornDown htorn

/-! ### Closed connections -/

theorem Emptied.of_open (h : c.closed = false) : c.Emptied := by
  intro hclosed
  rw [h] at hclosed
  exact absurd hclosed (by decide)

theorem Emptied.keep (h : c.Emptied) (hclosed : c'.closed = c.closed) (hwaiters : c.slotWaiters = [] → c'.slotWaiters = [])
    (hmanager : c.manager.NoCallbacks → c'.manager.NoCallbacks) : c'.Emptied := by
  intro hnow
  obtain ⟨hnone, hempty⟩ := h (hclosed ▸ hnow)
  exact ⟨hwaiters hnone, hmanager hempty⟩

theorem Emptied.same (h : c.Emptied) (hclosed : c'.closed = c.closed) (hwaiters : c'.slotWaiters = c.slotWaiters)
    (hmanager : c'.manager = c.manager) : c'.Emptied :=
  h.keep hclosed (fun hnone => hwaiters.trans hnone) fun hempty => hmanager.symm ▸ hempty

theorem Emptied.aside (h : c.Emptied) (haside : Aside c c') : c'.Emptied := h.same haside.closed haside.slotWaiters haside.manager

theorem Wakes.slotWaiters_eq_nil (h : Wakes c c') (hnone : c.slotWaiters = []) : c'.slotWaiters = [] := by
  by_contra hwaits
  exact h.slotWaiters_ne_nil hwaits hnone

theorem TornDown.emptied {err : JsError} (h : TornDown c c' err) : c'.Emptied := by
  intro _
  refine ⟨h.slotWaiters, ?_⟩
  rw [h.manager]
  exact c.manager.abortAll_noCallbacks err

theorem Emptied.manage (h : c.Emptied) {op : ManagerOp} (hop : op.scope ≠ .expects) : (c.manage op).Emptied := by
  refine h.keep (c.managed_hears _).closed (c.managed_wakes _).slotWaiters_eq_nil fun hempty => ?_
  rw [Http2Connection.manage, managed_manager]
  exact hempty.step hop

theorem Emptied.acquireSlot (h : c.Emptied) (call : RequestCall) : (c.acquireSlot call).Emptied := by
  rw [Http2Connection.acquireSlot]
  split
  · exact h.same rfl rfl rfl
  · rename_i htaken
    simp only [slotFree, Bool.or_eq_true, not_or, Bool.not_eq_true] at htaken
    exact .of_open htaken.1.2

theorem Emptied.executeRequest (h : c.Emptied) (streamId : StreamId) (call : RequestCall) :
    (c.executeRequest streamId call).Emptied := by
  have hhears := (Hears.delete c streamId).trans (.releaseSlot _)
  apply executeRequest_induction c streamId call
  · exact fun _ => h.keep hhears.closed hhears.waiters.slotWaiters_eq_nil fun hempty => hhears.manager.symm ▸ hempty
  · exact fun hopen => .of_open ((c.managed_hears _).closed.trans (Bool.or_eq_false_iff.mp hopen).2)
  · exact fun c' effect _ hbefore => hbefore.aside (.perform c' effect)
  · exact fun c' data hbefore => hbefore.manage (by simp [ManagerOp.scope])

theorem Emptied.moves {s : ConnectionStep} (h : c.Emptied) (hmoves : Moves c s c') : c'.Emptied := by
  cases hmoves with
  | aside haside => exact h.aside haside
  | requested call hopen => exact h.acquireSlot call
  | woke call hcall =>
      have hwoken : ({ c with woken := c.woken.erase call } : Http2Connection).Emptied := h.same rfl rfl rfl
      exact hwoken.acquireSlot call
  | resumed call hcall =>
      have hopened : ({ c with granted := c.granted.erase call } : Http2Connection).openRequestStream.Emptied := by
        rw [openRequestStream_eq]
        refine h.keep rfl (fun hnone => hnone) fun hempty => ?_
        exact @Manager.NoCallbacks.step c.manager hempty .openStream (by decide)
      rw [resume, if_pos hcall]
      exact hopened.executeRequest _ call
  | leaving lastStreamId errorCode debugData => exact h.same rfl rfl rfl
  | tornDown hopen htorn => exact htorn.emptied
  | received frame hreading haside =>
      have hmanaged : (c.manage (.dispatch frame)).Emptied := h.manage (by cases frame <;> simp [ManagerOp.scope])
      exact hmanaged.aside haside
  | failed frame hreading hopen htorn => exact htorn.emptied

/-! ### Whole runs -/

theorem run_emptied (options : Http2Options) (s : List ConnectionStep) : (run options s).Emptied := by
  induction s using List.reverseRecOn with
  | nil => exact .of_open rfl
  | append_singleton s a ih =>
      rw [run_concat]
      exact ih.moves (step_moves _ a)

theorem run_nextStreamId_odd (options : Http2Options) (s : List ConnectionStep) : (run options s).manager.nextStreamId % 2 = 1 := by
  obtain ⟨ops, hops⟩ := run_managed options s
  rw [hops]
  exact Manager.run_nextStreamId_odd ops

/-- Every call is on its way to a stream, or its promise is held or settled. -/
theorem run_holds (options : Http2Options) {s : List ConnectionStep}
    (hpush : ∀ frame, .receiveFrame (.pushPromise frame) ∈ s → frame.promisedStreamId % 2 = 0) (hcall : .request call ∈ s) :
    call ∈ (run options s).pending ∨ (run options s).Holds (run options s).manager.nextStreamId call.promise := by
  induction s using List.reverseRecOn with
  | nil => exact absurd hcall List.not_mem_nil
  | append_singleton s a ih =>
      have hbefore := ih fun frame hmem => hpush frame (List.mem_append_left _ hmem)
      rw [run_concat]
      rcases List.mem_append.mp hcall with hearlier | hnow
      · rcases hbefore hearlier with hpending | hholds
        · refine (step_pending hpending a).imp_right ?_
          rintro ⟨rfl, hgranted⟩
          exact resume_holds hgranted (run_nextStreamId_odd options s)
        · refine .inr (hholds.moves (step_moves _ a) fun frame hframe => ?_)
          exact hpush frame (hframe ▸ List.mem_append_right _ List.mem_cons_self)
      · obtain rfl : .request call = a := List.mem_singleton.mp hnow
        simp only [Http2Connection.step, request]
        split
        · exact .inr (.inl (.inl ⟨_, List.mem_append_right _ List.mem_cons_self⟩))
        · exact .inl (acquireSlot_pending (.inl rfl))

end Http2Connection

open Http2Connection in
/-- In every run in which PUSH_PROMISE promises no odd ids: once the connection is closed and no call is left to
run, the promise of every call of `request()` has been settled. -/
theorem requests_settled (options : Http2Options) (s : List ConnectionStep)
    (hpush : ∀ frame, .receiveFrame (.pushPromise frame) ∈ s → frame.promisedStreamId % 2 = 0)
    (hclosed : (run options s).closed = true) (hidle : (run options s).Quiescent) :
    ∀ call, .request call ∈ s → (run options s).HasSettled call.promise := by
  intro call hcall
  obtain ⟨hnone, hempty⟩ := run_emptied options s hclosed
  rcases run_holds options hpush hcall with hpending | hsettled | ⟨id, -, -, hawaits⟩
  · rw [pending, hnone, hidle.1, hidle.2] at hpending
    exact absurd hpending List.not_mem_nil
  · exact hsettled
  · exact absurd hawaits (hempty.not_awaits call.promise id)

/-- A stream is promised, one call is in flight and one waits when the connection closes, and the one that waits
runs on. -/
def closedAround : List ConnectionStep :=
  oneWaiting ++ [.receiveFrame (.pushPromise
      { flags := 0x4, streamId := 1, endHeaders := true, padded := false, promisedStreamId := 2, payload := [] }),
    .close, .wake secondCall, .resume secondCall]

open Http2Connection in
theorem requests_settled_closed :
    (run {} closedAround).HasSettled firstCall.promise ∧ (run {} closedAround).HasSettled secondCall.promise := by
  have hpush : ∀ frame, .receiveFrame (.pushPromise frame) ∈ closedAround → frame.promisedStreamId % 2 = 0 := by
    intro frame hmem
    simp only [closedAround, oneWaiting, limitOne, List.cons_append, List.nil_append, List.mem_cons, List.not_mem_nil, or_false, false_or,
      ConnectionStep.receiveFrame.injEq, Frame.pushPromise.injEq, reduceCtorEq] at hmem
    subst hmem
    rfl
  have hclosed : (run {} closedAround).closed = true := by decide +kernel
  have hidle : (run {} closedAround).Quiescent := by decide +kernel
  exact ⟨requests_settled {} closedAround hpush hclosed hidle firstCall (by decide),
    requests_settled {} closedAround hpush hclosed hidle secondCall (by decide)⟩

end BrowsercoreHttp2
