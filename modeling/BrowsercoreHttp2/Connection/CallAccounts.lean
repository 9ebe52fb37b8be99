import BrowsercoreHttp2.Connection.Calls
import BrowsercoreHttp2.Connection.Replies
import BrowsercoreHttp2.Connection.Teardown
import Mathlib.Data.List.Perm.Basic

/-!
# Calls are accounted for

A call of `request()` is refused at once or let in. A call that was let in waits, has been woken, has been let
through, or has run on to a stream of its own: it is in one of these places, and in one only.
-/

namespace BrowsercoreHttp2

/-- The error that a GOAWAY leaves behind. -/
def Frame.goawayError : Frame → Option JsError
  | .goaway frame => some (.http2 (.goawayReceived frame.lastStreamId frame.errorCode frame.debugData))
  | _ => none

namespace Http2Connection

variable {c c' c'' : Http2Connection} {call : RequestCall}

/-- The call a step lets in. -/
def letsIn (c : Http2Connection) : ConnectionStep → Option RequestCall
  | .request call => if c.closing || c.closed then none else some call
  | _ => none

/-- The call that a step has run on to its stream. -/
def runsOn (c : Http2Connection) : ConnectionStep → Option RequestCall
  | .resume call => if call ∈ c.granted then some call else none
  | _ => none

def letIn (c : Http2Connection) : List ConnectionStep → List RequestCall
  | [] => []
  | s :: rest => (c.letsIn s).toList ++ (c.step s).letIn rest

def ranOn (c : Http2Connection) : List ConnectionStep → List RequestCall
  | [] => []
  | s :: rest => (c.runsOn s).toList ++ (c.step s).ranOn rest

/-! ### Where the calls are -/

theorem Wakes.pending_perm (h : Wakes c c') (hgranted : c'.granted = c.granted) : c'.pending.Perm c.pending := by
  obtain ⟨freed, hwaiters, hwoken⟩ := h
  refine List.perm_iff_count.mpr fun call => ?_
  simp only [Http2Connection.pending, hwaiters, hwoken, hgranted, List.count_append]
  omega

theorem Aside.pending_perm (h : Aside c c') : c'.pending.Perm c.pending := by
  rw [Http2Connection.pending, Http2Connection.pending, h.slotWaiters, h.woken, h.granted]

theorem acquireSlot_perm (c : Http2Connection) (call : RequestCall) : (c.acquireSlot call).pending.Perm (c.pending ++ [call]) := by
  refine List.perm_iff_count.mpr fun other => ?_
  rw [acquireSlot]
  split <;> simp only [pending, List.count_append] <;> omega

theorem Moves.pending_perm {s : ConnectionStep} (h : Moves c s c') (hrequest : ∀ call, s ≠ .request call)
    (hwake : ∀ call, s ≠ .wake call) (hresume : ∀ call, s ≠ .resume call) : c'.pending.Perm c.pending := by
  have hmanaged : ∀ op, (c.manage op).pending.Perm c.pending := fun op =>
    (c.managed_wakes _).pending_perm (c.managed_hears _).granted
  cases h with
  | aside haside => exact haside.pending_perm
  | requested call hopen => exact absurd rfl (hrequest call)
  | woke call hcall => exact absurd rfl (hwake call)
  | resumed call hcall => exact absurd rfl (hresume call)
  | leaving lastStreamId errorCode debugData => exact .refl _
  | tornDown hopen htorn => exact htorn.wakes.pending_perm htorn.granted
  | received frame hreading haside => exact haside.pending_perm.trans (hmanaged _)
  | failed frame hreading hopen htorn => exact (htorn.wakes.pending_perm htorn.granted).trans (hmanaged _)

theorem step_perm (c : Http2Connection) (s : ConnectionStep) :
    ((c.step s).pending ++ (c.runsOn s).toList).Perm (c.pending ++ (c.letsIn s).toList) := by
  have hquiet : ∀ {s : ConnectionStep}, (∀ call, s ≠ .request call) → (∀ call, s ≠ .wake call) →
      (∀ call, s ≠ .resume call) → ((c.step s).pending ++ []).Perm (c.pending ++ []) := by
    intro s hrequest hwake hresume
    exact ((c.step_moves s).pending_perm hrequest hwake hresume).append_right []
  cases s with
  | request call =>
      simp only [step, request, runsOn, letsIn]
      split
      · exact .refl _
      · rw [Option.toList_none, List.append_nil]
        exact c.acquireSlot_perm call
  | wake call =>
      simp only [step, wake, runsOn, letsIn, Option.toList_none, List.append_nil]
      split
      · rename_i hwoken
        refine (acquireSlot_perm _ call).trans (List.perm_iff_count.mpr fun other => ?_)
        have herased := List.perm_iff_count.mp (List.perm_cons_erase hwoken) other
        simp only [pending, List.count_append, List.count_cons, List.count_nil] at herased ⊢
        omega
      · exact .refl _
  | resume call =>
      simp only [step, runsOn, letsIn, Option.toList_none, List.append_nil]
      by_cases hcall : call ∈ c.granted
      · obtain ⟨hwakes, hgranted⟩ := resume_wakes hcall
        have hrest := hwakes.pending_perm hgranted
        rw [if_pos hcall]
        refine (hrest.append_right [call]).trans (List.perm_iff_count.mpr fun other => ?_)
        have herased := List.perm_iff_count.mp (List.perm_cons_erase hcall) other
        simp only [pending, List.count_append, List.count_cons, List.count_nil] at herased ⊢
        omega
      · rw [if_neg hcall, resume, if_neg hcall, Option.toList_none, List.append_nil]
  | _ => exact hquiet (fun _ => by simp) (fun _ => by simp) fun _ => by simp

/-- The calls of a run that were let in, in one place each. -/
theorem steps_perm (c : Http2Connection) (s : List ConnectionStep) :
    ((c.steps s).pending ++ c.ranOn s).Perm (c.pending ++ c.letIn s) := by
  induction s generalizing c with
  | nil => exact .refl _
  | cons a s ih =>
      have hrest := List.perm_iff_count.mp (ih (c.step a))
      have hfirst := List.perm_iff_count.mp (c.step_perm a)
      refine List.perm_iff_count.mpr fun call => ?_
      have hrest := hrest call
      have hfirst := hfirst call
      simp only [ranOn, letIn, steps, List.foldl_cons, List.count_append] at hrest hfirst ⊢
      omega

/-! ### Streams -/

theorem count_openStream_asks (c : Http2Connection) (s : ConnectionStep) :
    (c.asks s).count .openStream = (c.runsOn s).toList.length := by
  by_cases hopens : c.Opens s
  · obtain ⟨call, rfl, hgranted⟩ := hopens
    have hrest : (c.executorAsks c.manager.nextStreamId call).count .openStream = 0 := by
      refine List.count_eq_zero.mpr fun hmem => ?_
      rcases executorAsks_cases hmem with hop | hop <;> exact absurd hop (by simp)
    have hasks : c.asks (.resume call) = .openStream :: c.executorAsks c.manager.nextStreamId call := if_pos hgranted
    have hruns : c.runsOn (.resume call) = some call := if_pos hgranted
    rw [hasks, List.count_cons_self, hrest, hruns]
    rfl
  · have hnone : c.runsOn s = none := by
      cases s with
      | resume call => exact if_neg fun hgranted => hopens ⟨call, rfl, hgranted⟩
      | _ => rfl
    rw [List.count_eq_zero.mpr fun hmem => hopens (asks_openStream hmem), hnone]
    rfl

theorem managerSteps_nextStreamId (m : Manager) (ops : List ManagerOp) :
    (m.steps ops).nextStreamId = m.nextStreamId + 2 * ops.count .openStream := by
  induction ops generalizing m with
  | nil => rfl
  | cons op ops ih =>
      have hstep := m.step_nextStreamId op
      have hrest := ih (m.step op)
      rw [List.count_cons]
      by_cases hopen : op = .openStream
      · rw [if_pos hopen] at hstep
        rw [hopen, beq_self_eq_true, if_pos rfl]
        rw [hopen] at hrest hstep
        show ((m.step .openStream).steps ops).nextStreamId = _
        omega
      · rw [if_neg hopen] at hstep
        rw [beq_false_of_ne hopen, if_neg Bool.false_ne_true]
        show ((m.step op).steps ops).nextStreamId = _
        omega

theorem steps_nextStreamId (c : Http2Connection) (s : List ConnectionStep) :
    (c.steps s).manager.nextStreamId = c.manager.nextStreamId + 2 * (c.ranOn s).length := by
  induction s generalizing c with
  | nil => rfl
  | cons a s ih =>
      have hfirst : (c.step a).manager.nextStreamId = c.manager.nextStreamId + 2 * (c.runsOn a).toList.length := by
        rw [step_manager, managerSteps_nextStreamId, count_openStream_asks]
      have hrest := ih (c.step a)
      rw [ranOn, List.length_append]
      simp only [steps, List.foldl_cons] at hrest ⊢
      omega

/-! ### The closing error -/

theorem onEffect_receivedGoaway (c : Http2Connection) {effect : Effect}
    (h : ∀ last code debug, effect ≠ .emitEvent (.goaway last code debug)) :
    (c.onEffect effect).receivedGoaway = c.receivedGoaway := by
  have hreleased : ∀ c : Http2Connection, c.releaseSlot.receivedGoaway = c.receivedGoaway := by
    intro c
    rw [releaseSlot]
    split <;> rfl
  cases effect with
  | emitEvent event =>
      cases event with
      | goaway last code debug => exact absurd rfl (h last code debug)
      | streamClosed streamId =>
          simp only [onEffect, onEvent, onStreamClosed]
          split
          · exact hreleased _
          · rfl
      | settingsAck =>
          simp only [onEffect, onEvent, onSettingsAck]
          split <;> rfl
      | _ => rfl
  | _ => rfl

theorem foldl_onEffect_receivedGoaway (effects : List Effect) (c : Http2Connection)
    (h : ∀ effect ∈ effects, ∀ last code debug, effect ≠ .emitEvent (.goaway last code debug)) :
    (effects.foldl onEffect c).receivedGoaway = c.receivedGoaway := by
  induction effects generalizing c with
  | nil => rfl
  | cons effect effects ih =>
      obtain ⟨hfirst, hrest⟩ := List.forall_mem_cons.mp h
      rw [List.foldl_cons, ih _ hrest, onEffect_receivedGoaway c hfirst]

theorem manage_receivedGoaway (c : Http2Connection) {op : ManagerOp} (h : ∀ frame, op ≠ .dispatch (.goaway frame)) :
    (c.manage op).receivedGoaway = c.receivedGoaway := by
  refine foldl_onEffect_receivedGoaway _ { c with manager := c.manager.step op } fun effect hmem last code debug heq => ?_
  have hbesides := c.manager.newEffects_besides op effect hmem
  rw [heq] at hbesides
  have hannounced : op.announces = some (.goaway last code debug) :=
    hbesides.elim (by simp [Effect.ending]) fun h => of_decide_eq_true h
  cases op with
  | dispatch frame =>
      cases frame with
      | goaway frame => exact h frame rfl
      | settings frame => simp [ManagerOp.announces] at hannounced
      | ping frame => simp [ManagerOp.announces] at hannounced
      | _ => simp [ManagerOp.announces] at hannounced
  | _ => simp [ManagerOp.announces] at hannounced

theorem manage_goaway_receivedGoaway (c : Http2Connection) (frame : GoawayFrame) :
    (c.manage (.dispatch (.goaway frame))).receivedGoaway = some (frame.lastStreamId, frame.errorCode, frame.debugData) := by
  have heffects := (Manager.handleGoaway_rejects c.manager frame).2
  have hmanaged : c.manage (.dispatch (.goaway frame)) =
      ((c.manager.handleGoaway frame).effects.drop c.manager.effects.length).foldl onEffect
        { c with manager := c.manager.handleGoaway frame } := rfl
  rw [hmanaged, heffects, List.drop_left, List.foldl_cons, foldl_onEffect_receivedGoaway]
  · rfl
  · intro effect hmem last code debug heq
    rw [heq] at hmem
    obtain ⟨st, -, hrejection⟩ := List.mem_flatMap.mp hmem
    simp only [Manager.rejection, List.mem_cons, Option.mem_toList, Option.map_eq_some_iff, Effect.emitEvent.injEq, reduceCtorEq,
      and_false, exists_false, or_self] at hrejection

theorem executeRequest_receivedGoaway (c : Http2Connection) (streamId : StreamId) (call : RequestCall) :
    (c.executeRequest streamId call).receivedGoaway = c.receivedGoaway := by
  apply executeRequest_induction (motive := fun c' => c'.receivedGoaway = c.receivedGoaway) c streamId call
  · intro _
    rw [releaseSlot]
    split <;> rfl
  · exact fun _ => c.manage_receivedGoaway (fun _ => by simp)
  · exact fun c' effect _ hbefore => hbefore
  · exact fun c' data hbefore => (c'.manage_receivedGoaway (fun _ => by simp)).trans hbefore

theorem tearDown_receivedGoaway (c : Http2Connection) (err : JsError) : (c.tearDown err).receivedGoaway = c.receivedGoaway :=
  c.manage_receivedGoaway fun _ => by simp

theorem handleFatal_receivedGoaway (c : Http2Connection) (err : JsError) : (c.handleFatal err).receivedGoaway = c.receivedGoaway := by
  rw [handleFatal]
  split
  · rfl
  · dsimp only
    split
    · exact tearDown_receivedGoaway _ err
    · exact tearDown_receivedGoaway _ err

theorem acquireSlot_receivedGoaway (c : Http2Connection) (call : RequestCall) :
    (c.acquireSlot call).receivedGoaway = c.receivedGoaway := by
  rw [acquireSlot]
  split <;> rfl

/-- Nothing but a GOAWAY that is dispatched changes the error. -/
theorem step_closingError (c : Http2Connection) (s : ConnectionStep) :
    (c.step s).closingError = ((c.hears s).bind Frame.goawayError).getD c.closingError := by
  have hkept : ∀ {c' : Http2Connection}, c'.receivedGoaway = c.receivedGoaway → c'.closingError = c.closingError := by
    intro c' h
    rw [closingError, closingError, h]
  cases s with
  | request call =>
      apply hkept
      simp only [step, request]
      split
      · rfl
      · exact c.acquireSlot_receivedGoaway call
  | wake call =>
      apply hkept
      simp only [step, wake]
      split
      · exact acquireSlot_receivedGoaway _ call
      · rfl
  | resume call =>
      apply hkept
      simp only [step, resume]
      split
      · rw [openRequestStream_eq]
        exact executeRequest_receivedGoaway _ _ call
      · rfl
  | goaway lastStreamId errorCode debugData => rfl
  | close =>
      apply hkept
      simp only [step, close]
      split
      · rfl
      · exact tearDown_receivedGoaway (c.goaway 0 0 []) _
  | ping promise data =>
      apply hkept
      simp only [step, ping]
      split <;> rfl
  | waitForSettingsAck promise timeoutMs => rfl
  | settingsAckTimeout wait =>
      apply hkept
      simp only [step, settingsAckTimeout]
      split <;> rfl
  | receiveFrame frame =>
      have hdispatched : (c.manage (.dispatch frame)).closingError = ((some frame).bind Frame.goawayError).getD c.closingError := by
        by_cases hgoaway : ∃ goaway, frame = .goaway goaway
        · obtain ⟨goaway, hframe⟩ := hgoaway
          rw [hframe, closingError, manage_goaway_receivedGoaway]
          rfl
        · have hnone : frame.goawayError = none := by
            cases frame with
            | goaway goaway => exact absurd ⟨goaway, rfl⟩ hgoaway
            | _ => rfl
          rw [Option.bind_some, hnone]
          exact hkept (c.manage_receivedGoaway fun goaway heq => hgoaway ⟨goaway, ManagerOp.dispatch.inj heq⟩)
      rcases c.receiveFrame_cases frame with ⟨hreading, hsame⟩ | ⟨hreading, ⟨reading, hread⟩ | ⟨e, -, hfatal⟩⟩
      · rw [step, hsame, hears, if_neg (Bool.eq_false_iff.mp hreading)]
        rfl
      · rw [step, hread, hears, if_pos hreading]
        exact hdispatched
      · rw [step, hfatal, hears, if_pos hreading, ← hdispatched]
        exact congrArg (fun goaway => closingError { c with receivedGoaway := goaway }) (handleFatal_receivedGoaway _ e)
  | readError err =>
      apply hkept
      simp only [step, readError]
      split
      · exact c.handleFatal_receivedGoaway err
      · rfl

theorem steps_closingError (c : Http2Connection) (s : List ConnectionStep) :
    (c.steps s).closingError = (((c.heard s).filterMap Frame.goawayError).getLast?).getD c.closingError := by
  induction s using List.reverseRecOn with
  | nil => rfl
  | append_singleton s a ih =>
      have hlast : c.heard (s ++ [a]) = c.heard s ++ ((c.steps s).hears a).toList := by
        rw [heard_append, heard, heard, List.append_nil]
      rw [steps_concat, step_closingError, hlast, List.filterMap_append, ih]
      cases (c.steps s).hears a with
      | none => rw [Option.toList_none, List.filterMap_nil, List.append_nil]; rfl
      | some frame =>
          rw [Option.toList_some, Option.bind_some]
          cases herror : frame.goawayError with
          | none => rw [List.filterMap_cons_none herror, List.filterMap_nil, List.append_nil]; rfl
          | some error => rw [List.filterMap_cons_some herror, List.filterMap_nil, List.getLast?_concat]; rfl

end Http2Connection

open Http2Connection in
/-- Every call of `request()` is refused at once or let in. It is refused with the error of the last GOAWAY that was received,
if there was one. One that was let in waits, has been woken, has been let through or has run on to a stream, and as many
ids have been given out as calls have run on. -/
theorem calls_accounted (options : Http2Options) (s : List ConnectionStep) :
    ((run options s).pending ++ ranOn { options } s).Perm (letIn { options } s) ∧
      (run options s).manager.nextStreamId = 1 + 2 * (ranOn { options } s).length ∧
      (run options s).closingError = (((heard { options } s).filterMap Frame.goawayError).getLast?).getD (.http2 .connectionClosed) ∧
      ∀ call, letsIn (run options s) (.request call) = none →
        (run options s).newEffects ((run options s).step (.request call)) = [.reject call.promise (run options s).closingError] := by
  refine ⟨steps_perm { options } s, steps_nextStreamId { options } s, steps_closingError { options } s, fun call hrefused => ?_⟩
  have hclosing : ((run options s).closing || (run options s).closed) = true := by
    by_contra hopen
    rw [letsIn, if_neg hopen] at hrefused
    exact absurd hrefused (by simp)
  rw [step, request, if_pos hclosing, newEffects, perform, List.drop_left]

end BrowsercoreHttp2
