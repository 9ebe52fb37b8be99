import BrowsercoreHttp2.Connection.Keeps
import BrowsercoreHttp2.Connection.Teardown

/-!
# Waiting for the settings to be acknowledged

Every call of `waitForSettingsAck` sets a timer and a listener of its own, but the way to reject it goes into one
field that all calls share: the last call writes it, and the end of any call clears it. `handleFatal` rejects
what it finds there.
-/

namespace BrowsercoreHttp2

/-- The promise of a settings wait that a step begins. -/
def ConnectionStep.awaits : ConnectionStep → Option Callback
  | .waitForSettingsAck promise _ => some promise
  | _ => none

/-- The promise of a request or a ping that a step is about. -/
def ConnectionStep.promise : ConnectionStep → Option Callback
  | .request call | .wake call | .resume call => some call.promise
  | .ping promise _ => some promise
  | _ => none

/-- The promise an effect rejects, or resolves as that of a settings wait. -/
def ConnectionEffect.settles : ConnectionEffect → Option Callback
  | .reject promise _ | .resolveSettingsAck promise => some promise
  | _ => none

namespace Http2Connection

variable {c c' : Http2Connection} {wait : SettingsAckWait}

/-- What has become of a promise: it stays what it was settled to first. -/
def settlement (c : Http2Connection) (promise : Callback) : Option ConnectionEffect :=
  c.effects.find? fun effect => effect.settles = some promise

/-- The error with which a step runs `handleFatal`. -/
def fails (c : Http2Connection) : ConnectionStep → Option JsError
  | .receiveFrame frame => if c.reading then (c.manager.dispatch frame).2 else none
  | .readError err => if c.reading && !c.closed then some err else none
  | _ => none

/-! ### One step -/

/-- The waits, the shared field and the read loop. -/
def ackState (c : Http2Connection) : List SettingsAckWait × Option Callback × Bool :=
  (c.settingsAckWaits, c.settingsAckReject, c.reading)

theorem ackState_overlooks : Overlooks ackState := fun _ _ _ _ _ _ _ _ _ _ => rfl

theorem ackState_reading (c : Http2Connection) (reading : Bool) :
    { c with reading }.ackState = (c.ackState.1, c.ackState.2.1, reading) := rfl

/-- The effect settles no promise but this one. -/
def SettlesOnly (promise : Option Callback) (effect : ConnectionEffect) :
    Prop := ∀ settled, effect.settles = some settled → promise = some settled

/-- No wait begins or ends, and nothing is settled but the promise of a request or a ping. -/
abbrev Quiet (promise : Option Callback) (c c' : Http2Connection) : Prop := Keeps ackState (SettlesOnly promise) c c'

/-- What a step does to the waits. -/
inductive AckMoves (c : Http2Connection) (s : ConnectionStep) : Http2Connection → Prop where
  | begun {c' : Http2Connection} (wait : SettingsAckWait) (hs : s = .waitForSettingsAck wait.promise wait.timeoutMs)
      (hstate : c'.ackState = (c.settingsAckWaits ++ [wait], some wait.promise, c.reading)) (heffects : c'.effects = c.effects) :
      AckMoves c s c'
  | expired {c' : Http2Connection} (wait : SettingsAckWait) (hwait : wait ∈ c.settingsAckWaits) (hs : s = .settingsAckTimeout wait)
      (hstate : c'.ackState = (c.settingsAckWaits.erase wait, none, c.reading))
      (heffects : c'.effects = c.effects ++ [.reject wait.promise (.http2 (.settingsAckTimeout wait.timeoutMs))]) : AckMoves c s c'
  | acked {c' : Http2Connection} (hwaits : c'.settingsAckWaits = []) (hslot : c'.settingsAckReject = none)
      (heffects : ∃ effect, effect.settles = none ∧
        c'.effects = c.effects ++ effect :: c.settingsAckWaits.map fun wait => .resolveSettingsAck wait.promise)
      (hreading : c.reading = true) (hs : s.awaits = none) (hfails : c.fails s = none) : AckMoves c s c'
  | failed {c' : Http2Connection} (e : JsError) (hfails : c.fails s = some e) (hopen : c.closed = false)
      (hstate : c'.ackState = (c.settingsAckWaits, none, false))
      (heffects : ∃ before after, c'.effects = c.effects ++ before ++ (c.settingsAckReject.map (ConnectionEffect.reject · e)).toList ++ after ∧
        ∀ effect ∈ before ++ after, effect.settles = none) : AckMoves c s c'
  | quiet {c' : Http2Connection} (hs : s.awaits = none) (hfails : ∀ e, c.fails s = some e → c.closed = true ∧ c'.reading = false)
      (hstate : c'.ackState = (c.settingsAckWaits, c.settingsAckReject, c'.reading)) (hreading : c'.reading = true → c.reading = true)
      (heffects : ∃ new, c'.effects = c.effects ++ new ∧ ∀ effect ∈ new, SettlesOnly s.promise effect) : AckMoves c s c'

theorem not_settles_iff {effect : ConnectionEffect} : SettlesOnly none effect ↔ effect.settles = none := by
  constructor
  · intro h
    cases hsettles : effect.settles with
    | none => rfl
    | some settled => exact absurd (h settled hsettles) (Option.some_ne_none settled).symm
  · intro h settled hsettles
    exact absurd (h.symm.trans hsettles).symm (Option.some_ne_none settled)

theorem settlesOnly_of_none {promise : Option Callback} {effect : ConnectionEffect} (h : effect.settles = none) :
    SettlesOnly promise effect :=
  fun settled hsettles => absurd (h.symm.trans hsettles).symm (Option.some_ne_none settled)

theorem AckMoves.of_quiet {s : ConnectionStep} (h : Quiet s.promise c c') (hs : s.awaits = none) (hfails : c.fails s = none) :
    AckMoves c s c' :=
  have hreading : c'.reading = c.reading := congrArg (·.2.2) h.view
  .quiet hs (fun e he => absurd (hfails.symm.trans he).symm (Option.some_ne_none e)) (hreading.symm ▸ h.view) (fun h => hreading ▸ h)
    h.effects

theorem dispatch_quiet (c : Http2Connection) {frame : Frame} (hframe : (ManagerOp.dispatch frame).announces ≠ some .settingsAck) :
    Quiet none c (c.manage (.dispatch frame)) := by
  apply Keeps.manage ackState_overlooks (fun _ => settlesOnly_of_none rfl)
  intro event hevent c'
  by_cases hping : ∃ data, event = .pingAck data
  · obtain ⟨data, rfl⟩ := hping
    refine ⟨rfl, _, rfl, fun effect hmem => ?_⟩
    obtain ⟨handler, -, rfl⟩ := List.mem_map.mp hmem
    exact settlesOnly_of_none rfl
  · apply Keeps.onEvent ackState_overlooks c'
    · exact fun data hdata => hping ⟨data, hdata⟩
    · rintro rfl
      exact hframe hevent

theorem onSettingsAck_ends (c : Http2Connection) :
    c.onSettingsAck.settingsAckWaits = [] ∧ (c.settingsAckWaits ≠ [] → c.onSettingsAck.settingsAckReject = none) ∧
      (c.settingsAckWaits = [] → c.onSettingsAck.settingsAckReject = c.settingsAckReject) ∧
      c.onSettingsAck.effects = c.effects ++ c.settingsAckWaits.map fun wait => .resolveSettingsAck wait.promise := by
  rw [onSettingsAck]
  by_cases hnone : c.settingsAckWaits = []
  · rw [if_pos hnone]
    refine ⟨hnone, fun hsome => absurd hnone hsome, fun _ => rfl, ?_⟩
    rw [hnone, List.map_nil, List.append_nil]
  · rw [if_neg hnone]
    exact ⟨rfl, fun _ => rfl, fun h => absurd h hnone, rfl⟩

theorem receiveFrame_ack (hreading : c.reading = true) {frame : SettingsFrame} (hack : frame.ack = true) :
    ∃ heard : Http2Connection, heard.settingsAckWaits = c.settingsAckWaits ∧ heard.settingsAckReject = c.settingsAckReject ∧
      heard.effects = c.effects ++ [.manager (.emitEvent .settingsAck)] ∧
      c.receiveFrame (.settings frame) = { heard.onSettingsAck with reading := !heard.onSettingsAck.closed } := by
  have hdispatch : c.manager.dispatch (.settings frame) = (c.manager.emitEvent .settingsAck, none) := by
    simp only [Manager.dispatch, Manager.handleSettings, if_pos hack]
  have hheard : c.managed (c.manager.emitEvent .settingsAck) =
      ({ c with manager := c.manager.emitEvent .settingsAck }.perform (.manager (.emitEvent .settingsAck))).onSettingsAck := by
    rw [managed, Manager.emitEvent, Manager.perform, List.drop_left, List.foldl_cons, List.foldl_nil]
    rfl
  refine ⟨{ c with manager := c.manager.emitEvent .settingsAck }.perform (.manager (.emitEvent .settingsAck)), rfl, rfl, rfl, ?_⟩
  rw [receiveFrame, if_pos hreading, hdispatch]
  dsimp only
  rw [hheard]

theorem tearDown_quiet (c : Http2Connection) (err : JsError) : Quiet none c (c.tearDown err) :=
  .tearDown ackState_overlooks (fun _ => settlesOnly_of_none rfl) c err

theorem Keeps.settles_nothing (h : Quiet none c c') :
    ∃ new, c'.effects = c.effects ++ new ∧ ∀ effect ∈ new, effect.settles = none := by
  obtain ⟨new, heffects, hnew⟩ := h.effects
  exact ⟨new, heffects, fun effect hmem => not_settles_iff.mp (hnew effect hmem)⟩

/-- `handleFatal` rejects what is in the shared field. -/
theorem handleFatal_rejects (hopen : c.closed = false) (err : JsError) :
    (c.handleFatal err).ackState = (c.settingsAckWaits, none, c.reading) ∧
      ∃ after, (c.handleFatal err).effects =
          c.effects ++ (c.settingsAckReject.map (ConnectionEffect.reject · err)).toList ++ after ∧
        ∀ effect ∈ after, effect.settles = none := by
  rw [handleFatal, if_neg (Bool.eq_false_iff.mp hopen)]
  dsimp only
  split
  · rename_i promise hslot
    have htorn := tearDown_quiet ({ c with closing := true, settingsAckReject := none }.perform (.reject promise err)) err
    obtain ⟨after, heffects, hafter⟩ := htorn.settles_nothing
    refine ⟨htorn.view, after, ?_, hafter⟩
    rw [heffects, hslot]
    rfl
  · rename_i hslot
    have htorn := tearDown_quiet { c with closing := true } err
    obtain ⟨after, heffects, hafter⟩ := htorn.settles_nothing
    refine ⟨htorn.view.trans ?_, after, ?_, hafter⟩
    · rw [← hslot]
      rfl
    · rw [heffects, hslot, Option.map_none, Option.toList_none, List.append_nil]

/-- A frame that does not acknowledge the settings ends a wait only if dispatching it fails. -/
theorem receiveFrame_unacknowledged (hreading : c.reading = true) {frame : Frame}
    (hframe : (ManagerOp.dispatch frame).announces ≠ some .settingsAck) :
    AckMoves c (.receiveFrame frame) (c.receiveFrame frame) := by
  have hquiet := c.dispatch_quiet hframe
  have hclosed : (c.manage (.dispatch frame)).closed = c.closed := (c.managed_hears _).closed
  obtain ⟨before, heffects, hbefore⟩ := hquiet.settles_nothing
  have hstate : (c.manage (.dispatch frame)).ackState = c.ackState := hquiet.view
  have hwaits : (c.manage (.dispatch frame)).settingsAckWaits = c.settingsAckWaits := congrArg Prod.fst hstate
  have hslot : (c.manage (.dispatch frame)).settingsAckReject = c.settingsAckReject := congrArg (·.2.1) hstate
  rw [receiveFrame, if_pos hreading]
  cases hdispatch : c.manager.dispatch frame with
  | mk m thrown =>
      cases thrown with
      | none =>
          dsimp only
          rw [managed_of_dispatch hdispatch]
          refine .quiet rfl (fun e he => ?_) ?_ (fun _ => hreading) ?_
          · simp [fails, hdispatch] at he
          · rw [ackState_reading, hstate]
            rfl
          · exact ⟨before, heffects, fun effect hmem => settlesOnly_of_none (hbefore effect hmem)⟩
      | some e =>
          have hfails : c.fails (.receiveFrame frame) = some e := by simp only [fails, if_pos hreading, hdispatch]
          dsimp only
          rw [managed_of_dispatch hdispatch]
          cases hshut : c.closed with
          | true =>
              rw [handleFatal_of_closed (hclosed.trans hshut)]
              refine .quiet rfl (fun _ _ => ⟨hshut, rfl⟩) ?_ (fun _ => hreading) ?_
              · rw [ackState_reading, hstate]
                rfl
              · exact ⟨before, heffects, fun effect hmem => settlesOnly_of_none (hbefore effect hmem)⟩
          | false =>
              obtain ⟨hstate', after, heffects', hafter⟩ := handleFatal_rejects (hclosed.trans hshut) e
              refine .failed e hfails hshut ?_ ⟨before, after, ?_, ?_⟩
              · rw [ackState_reading, hstate', hwaits]
              · rw [← heffects, ← hslot]
                exact heffects'
              · exact fun effect hmem => (List.mem_append.mp hmem).elim (hbefore effect) (hafter effect)

theorem receiveFrame_acknowledged (hreading : c.reading = true) {frame : SettingsFrame} (hack : frame.ack = true) :
    AckMoves c (.receiveFrame (.settings frame)) (c.receiveFrame (.settings frame)) := by
  obtain ⟨heard, hwaits, hslot, heffects, hreceived⟩ := receiveFrame_ack hreading hack
  obtain ⟨hended, hcleared, hkept, hresolved⟩ := heard.onSettingsAck_ends
  rw [hwaits] at hcleared hkept hresolved
  have hfails : c.fails (.receiveFrame (.settings frame)) = none := by
    simp only [fails, if_pos hreading, Manager.dispatch]
  rw [hreceived]
  rw [heffects, List.append_assoc] at hresolved
  by_cases hnone : c.settingsAckWaits = []
  · refine .quiet rfl (fun e he => absurd (hfails.symm.trans he).symm (Option.some_ne_none e)) ?_ (fun _ => hreading) ?_
    · rw [ackState_reading, ackState, hended, hkept hnone, hslot, hnone]
    · refine ⟨_, hresolved, fun effect hmem => ?_⟩
      rw [hnone, List.map_nil, List.append_nil, List.mem_singleton] at hmem
      exact settlesOnly_of_none (hmem ▸ rfl)
  · exact .acked hended (hcleared hnone) ⟨_, rfl, hresolved⟩ hreading rfl hfails

theorem receiveFrame_ackMoves (c : Http2Connection) (frame : Frame) :
    AckMoves c (.receiveFrame frame) (c.receiveFrame frame) := by
  cases hreading : c.reading with
  | false =>
      have hsame : c.receiveFrame frame = c := by rw [receiveFrame, hreading, if_neg Bool.false_ne_true]
      rw [hsame]
      exact .of_quiet (.refl c) rfl (by simp only [fails, hreading, if_neg Bool.false_ne_true])
  | true =>
      by_cases hannounces : (ManagerOp.dispatch frame).announces = some .settingsAck
      · cases frame with
        | settings frame =>
            have hack : frame.ack = true := by
              by_contra hack
              simp [ManagerOp.announces, hack] at hannounces
            exact receiveFrame_acknowledged hreading hack
        | ping frame => simp [ManagerOp.announces] at hannounces
        | _ => simp [ManagerOp.announces] at hannounces
      · exact receiveFrame_unacknowledged hreading hannounces

theorem readError_ackMoves (c : Http2Connection) (err : JsError) : AckMoves c (.readError err) (c.readError err) := by
  rw [readError]
  split
  · rename_i hreading
    cases hclosed : c.closed with
    | true =>
        rw [handleFatal_of_closed hclosed]
        refine .quiet rfl (fun _ _ => ⟨hclosed, rfl⟩) rfl (fun _ => hreading) ⟨[], (List.append_nil _).symm, ?_⟩
        exact fun _ hmem => absurd hmem List.not_mem_nil
    | false =>
        obtain ⟨hstate, after, heffects, hafter⟩ := handleFatal_rejects hclosed err
        refine .failed err ?_ hclosed ?_ ⟨[], after, ?_, hafter⟩
        · simp only [fails, hreading, hclosed]
          rfl
        · rw [ackState_reading, hstate]
        · rw [List.append_nil]
          exact heffects
  · rename_i hreading
    refine .of_quiet (.refl c) rfl ?_
    simp only [fails, hreading]
    rfl

theorem step_ackMoves (c : Http2Connection) (s : ConnectionStep) : AckMoves c s (c.step s) := by
  have hmanager : ∀ {promise : Option Callback} (effect : Effect), SettlesOnly promise (.manager effect) :=
    fun _ => settlesOnly_of_none rfl
  have hframe : ∀ {promise : Option Callback} (frame : Frame), SettlesOnly promise (.sendFrame frame) :=
    fun _ => settlesOnly_of_none rfl
  have hreject : ∀ (promise : Callback) (error : JsError), SettlesOnly (some promise) (.reject promise error) :=
    fun _ _ _ hsettles => hsettles
  cases s with
  | request call =>
      refine .of_quiet ?_ rfl rfl
      simp only [step, request]
      split
      · exact .perform ackState_overlooks c (hreject _ _)
      · exact .acquireSlot ackState_overlooks c call
  | wake call =>
      refine .of_quiet ?_ rfl rfl
      simp only [step, wake]
      split
      · have hwoken : Quiet (some call.promise) c { c with woken := c.woken.erase call } := .same rfl rfl
        exact hwoken.trans (.acquireSlot ackState_overlooks _ call)
      · exact .refl c
  | resume call => exact .of_quiet (.resume ackState_overlooks hmanager hframe c (hreject _)) rfl rfl
  | goaway lastStreamId errorCode debugData =>
      have hclosing : Quiet none c { c with closing := true } := .same rfl rfl
      exact .of_quiet (hclosing.trans (.perform ackState_overlooks _ (hframe _))) rfl rfl
  | close =>
      refine .of_quiet ?_ rfl rfl
      simp only [step, close]
      split
      · exact .refl c
      · have hgoaway : Quiet none c (c.goaway 0 0 []) := by
          have hclosing : Quiet none c { c with closing := true } := .same rfl rfl
          exact hclosing.trans (.perform ackState_overlooks _ (hframe _))
        exact (hgoaway.trans (tearDown_quiet _ _)).trans (.perform ackState_overlooks _ (settlesOnly_of_none rfl))
  | ping promise data =>
      refine .of_quiet ?_ rfl rfl
      simp only [step, ping]
      split
      · exact .perform ackState_overlooks c (hreject _ _)
      · have hlistens : Quiet (some promise) c { c with pingHandlers := c.pingHandlers ++ [⟨promise, data⟩] } := .same rfl rfl
        exact hlistens.trans (.perform ackState_overlooks _ (hframe _))
  | waitForSettingsAck promise timeoutMs => exact .begun ⟨promise, timeoutMs⟩ rfl rfl rfl
  | settingsAckTimeout wait =>
      by_cases hwait : wait ∈ c.settingsAckWaits
      · simp only [step, settingsAckTimeout, if_pos hwait]
        exact .expired wait hwait rfl rfl rfl
      · simp only [step, settingsAckTimeout, if_neg hwait]
        exact .of_quiet (.refl c) rfl rfl
  | receiveFrame frame => exact receiveFrame_ackMoves c frame
  | readError err => exact readError_ackMoves c err

/-! ### Settled promises -/

theorem fails_reading {s : ConnectionStep} {e : JsError} (h : c.fails s = some e) : c.reading = true := by
  cases s with
  | receiveFrame frame => exact (Option.ite_none_right_eq_some.mp h).1
  | readError err => exact (Bool.and_eq_true_iff.mp (Option.ite_none_right_eq_some.mp h).1).1
  | _ => exact absurd h.symm (Option.some_ne_none e)

theorem fails_promise {s : ConnectionStep} {e : JsError} (h : c.fails s = some e) : s.promise = none := by
  cases s with
  | receiveFrame | readError => rfl
  | _ => exact absurd h.symm (Option.some_ne_none e)

theorem AckMoves.reading {s : ConnectionStep} (h : AckMoves c s c') (hreading : c'.reading = true) : c.reading = true := by
  cases h with
  | begun wait hs hstate heffects => exact (congrArg (·.2.2) hstate).symm.trans hreading
  | expired wait hwait hs hstate heffects => exact (congrArg (·.2.2) hstate).symm.trans hreading
  | acked hwaits hslot heffects hbefore hs hfails => exact hbefore
  | failed e hfails hopen hstate heffects => exact fails_reading hfails
  | quiet hs hfails hstate hbefore heffects => exact hbefore hreading

theorem steps_reading {s : List ConnectionStep} (h : (c.steps s).reading = true) : c.reading = true := by
  induction s using List.reverseRecOn with
  | nil => exact h
  | append_singleton s a ih =>
      rw [steps_concat] at h
      exact ih ((step_ackMoves _ a).reading h)

theorem settlement_eq_none_iff {promise : Callback} :
    c.settlement promise = none ↔ ∀ effect ∈ c.effects, effect.settles ≠ some promise := by
  rw [settlement, List.find?_eq_none]
  simp only [decide_eq_true_eq, ne_eq]

theorem settlement_of_prefix {promise : Callback} {effect : ConnectionEffect} (h : c.settlement promise = some effect)
    (heffects : c.effects <+: c'.effects) : c'.settlement promise = some effect := by
  obtain ⟨new, hnew⟩ := heffects
  rw [settlement, ← hnew, List.find?_append, ← settlement, h, Option.some_or]

/-! ### The waits of a run -/

/-- The promises of the waits begun in these steps. -/
def awaited (s : List ConnectionStep) : List Callback := s.filterMap ConnectionStep.awaits

/-- Every wait has a promise of its own, which is not that of a request or a ping. -/
def PromisesDistinct (s : List ConnectionStep) : Prop :=
  (awaited s).Nodup ∧ (s.filterMap ConnectionStep.promise).Disjoint (awaited s)

theorem PromisesDistinct.of_append {s s' : List ConnectionStep} (h : PromisesDistinct (s ++ s')) : PromisesDistinct s := by
  obtain ⟨hnodup, hdisjoint⟩ := h
  rw [awaited, List.filterMap_append] at hnodup hdisjoint
  rw [List.filterMap_append] at hdisjoint
  exact ⟨hnodup.of_append_left, (List.disjoint_append_right.mp (List.disjoint_append_left.mp hdisjoint).1).1⟩

theorem mem_awaited_of_begun {s : List ConnectionStep} {wait : SettingsAckWait}
    (h : .waitForSettingsAck wait.promise wait.timeoutMs ∈ s) : wait.promise ∈ awaited s :=
  List.mem_filterMap.mpr ⟨_, h, rfl⟩

theorem PromisesDistinct.fresh {s : List ConnectionStep} {a : ConnectionStep} {promise : Callback} (h : PromisesDistinct (s ++ [a]))
    (hawaits : a.awaits = some promise) : promise ∉ awaited s ∧ promise ∉ s.filterMap ConnectionStep.promise := by
  obtain ⟨hnodup, hdisjoint⟩ := h
  have hnew : awaited (s ++ [a]) = awaited s ++ [promise] := by
    rw [awaited, List.filterMap_append, List.filterMap_cons_some hawaits, List.filterMap_nil, ← awaited]
  rw [hnew] at hnodup hdisjoint
  constructor
  · intro hmem
    exact List.disjoint_of_nodup_append hnodup hmem List.mem_cons_self
  · intro hmem
    rw [List.filterMap_append] at hdisjoint
    exact hdisjoint (List.mem_append_left _ hmem) (List.mem_append_right _ List.mem_cons_self)

theorem PromisesDistinct.other {s : List ConnectionStep} {a : ConnectionStep} {promise : Callback} (h : PromisesDistinct (s ++ [a]))
    (hpromise : a.promise = some promise) : promise ∉ awaited s := by
  intro hmem
  have hlast : promise ∈ (s ++ [a]).filterMap ConnectionStep.promise :=
    List.mem_filterMap.mpr ⟨a, List.mem_append_right _ List.mem_cons_self, hpromise⟩
  refine h.2 hlast ?_
  rw [awaited, List.filterMap_append]
  exact List.mem_append_left _ hmem

/-- The waits that are set are those begun and not settled. -/
structure WaitBook (s : List ConnectionStep) (c : Http2Connection) : Prop where
  begun : ∀ wait ∈ c.settingsAckWaits, .waitForSettingsAck wait.promise wait.timeoutMs ∈ s
  slot : ∀ promise, c.settingsAckReject = some promise → promise ∈ awaited s
  kept : ∀ wait : SettingsAckWait, .waitForSettingsAck wait.promise wait.timeoutMs ∈ s → wait ∈ c.settingsAckWaits ∨
    ∃ effect ∈ c.effects, effect.settles = some wait.promise
  nodup : (c.settingsAckWaits.map SettingsAckWait.promise).Nodup
  known : ∀ effect ∈ c.effects, ∀ promise, effect.settles = some promise →
    promise ∈ awaited s ∨ promise ∈ s.filterMap ConnectionStep.promise
  unsettled : c.reading = true → ∀ wait ∈ c.settingsAckWaits, c.settlement wait.promise = none

theorem settlement_append {new : List ConnectionEffect} (heffects : c'.effects = c.effects ++ new) {promise : Callback}
    (h : c.settlement promise = none) :
    c'.settlement promise = new.find? fun effect => effect.settles = some promise := by
  rw [settlement, heffects, List.find?_append, ← settlement, h, Option.none_or]

theorem AckMoves.awaits {s : ConnectionStep} (h : AckMoves c s c') :
    s.awaits = none ∨ ∃ wait : SettingsAckWait, s = .waitForSettingsAck wait.promise wait.timeoutMs ∧
      c'.ackState = (c.settingsAckWaits ++ [wait], some wait.promise, c.reading) ∧ c'.effects = c.effects := by
  cases h with
  | begun wait hs hstate heffects => exact .inr ⟨wait, hs, hstate, heffects⟩
  | expired wait hwait hs hstate heffects => exact .inl (hs ▸ rfl)
  | acked hwaits hslot heffects hreading hs hfails => exact .inl hs
  | failed e hfails hopen hstate heffects =>
      cases s with
      | waitForSettingsAck promise timeoutMs => exact absurd hfails.symm (Option.some_ne_none e)
      | _ => exact .inl rfl
  | quiet hs hfails hstate hreading heffects => exact .inl hs

/-- What a step that begins no wait does to the waits: those it ends it settles, and it settles no other. -/
structure EndsWaits (c : Http2Connection) (s : ConnectionStep) (c' : Http2Connection) (new : List ConnectionEffect) : Prop where
  waits : c'.settingsAckWaits.Sublist c.settingsAckWaits
  slot : c'.settingsAckReject = c.settingsAckReject ∨ c'.settingsAckReject = none
  effects : c'.effects = c.effects ++ new
  ended : ∀ wait ∈ c.settingsAckWaits, wait ∈ c'.settingsAckWaits ∨ ∃ effect ∈ new, effect.settles = some wait.promise
  known : ∀ effect ∈ new, ∀ promise, effect.settles = some promise →
    s.promise = some promise ∨ promise ∈ c.settingsAckWaits.map SettingsAckWait.promise ∨ c.settingsAckReject = some promise
  unsettled : c'.reading = true → ∀ effect ∈ new, ∀ wait ∈ c'.settingsAckWaits, effect.settles = some wait.promise →
    s.promise = some wait.promise

theorem AckMoves.endsWaits {s : ConnectionStep} (h : AckMoves c s c') (hs : s.awaits = none)
    (hnodup : (c.settingsAckWaits.map SettingsAckWait.promise).Nodup) : ∃ new, EndsWaits c s c' new := by
  cases h with
  | begun wait hbegun hstate heffects =>
      subst hbegun
      exact absurd hs (Option.some_ne_none _)
  | expired wait hwait hexpired hstate heffects =>
      have hwaits : c'.settingsAckWaits = c.settingsAckWaits.erase wait := congrArg Prod.fst hstate
      refine ⟨_, hwaits ▸ List.erase_sublist, .inr (congrArg (·.2.1) hstate), heffects, fun other hother => ?_,
        fun effect hmem promise hsettles => ?_, fun _ effect hmem other hother hsettles => ?_⟩
      · by_cases hsame : other = wait
        · exact .inr ⟨_, List.mem_cons_self, hsame ▸ rfl⟩
        · exact .inl (hwaits ▸ (List.mem_erase_of_ne hsame).mpr hother)
      · obtain rfl := List.mem_singleton.mp hmem
        obtain rfl := Option.some.inj hsettles
        exact .inr (.inl (List.mem_map_of_mem hwait))
      · obtain rfl := List.mem_singleton.mp hmem
        have hpromise : wait.promise = other.promise := Option.some.inj hsettles
        rw [hwaits, (List.Nodup.of_map _ hnodup).mem_erase_iff] at hother
        exact absurd (List.inj_on_of_nodup_map hnodup hother.2 hwait hpromise.symm) hother.1
  | acked hwaits hslot heffects hreading hnone hfails =>
      obtain ⟨heard, hheard, heffects⟩ := heffects
      refine ⟨_, hwaits ▸ List.nil_sublist _, .inr hslot, heffects, fun wait hwait => ?_, fun effect hmem promise hsettles => ?_,
        fun _ effect hmem wait hwait => ?_⟩
      · exact .inr ⟨_, List.mem_cons_of_mem _ (List.mem_map_of_mem hwait), rfl⟩
      · rcases List.mem_cons.mp hmem with rfl | hmem
        · exact absurd (hheard.symm.trans hsettles).symm (Option.some_ne_none promise)
        · obtain ⟨wait, hwait, rfl⟩ := List.mem_map.mp hmem
          obtain rfl := Option.some.inj hsettles
          exact .inr (.inl (List.mem_map_of_mem hwait))
      · rw [hwaits] at hwait
        exact absurd hwait List.not_mem_nil
  | failed e hfails hopen hstate heffects =>
      obtain ⟨before, after, heffects, hnone⟩ := heffects
      have hwaits : c'.settingsAckWaits = c.settingsAckWaits := congrArg Prod.fst hstate
      rw [List.append_assoc, List.append_assoc] at heffects
      refine ⟨_, hwaits ▸ List.Sublist.refl _, .inr (congrArg (·.2.1) hstate), heffects, fun wait hwait => .inl (hwaits ▸ hwait),
        fun effect hmem promise hsettles => ?_, fun hreading => ?_⟩
      · have hother : effect ∉ before ++ after :=
          fun h => absurd ((hnone effect h).symm.trans hsettles).symm (Option.some_ne_none promise)
        rw [List.mem_append, not_or] at hother
        have hrejected := ((List.mem_append.mp hmem).resolve_left hother.1 |> List.mem_append.mp).resolve_right hother.2
        obtain ⟨rejected, hslot, rfl⟩ := Option.map_eq_some_iff.mp (Option.mem_toList.mp hrejected)
        obtain rfl := Option.some.inj hsettles
        exact .inr (.inr hslot)
      · exact absurd ((congrArg (·.2.2) hstate).symm.trans hreading) Bool.false_ne_true
  | quiet hnone hfails hstate hreading heffects =>
      obtain ⟨new, heffects, hnew⟩ := heffects
      have hwaits : c'.settingsAckWaits = c.settingsAckWaits := congrArg Prod.fst hstate
      refine ⟨new, hwaits ▸ List.Sublist.refl _, .inl (congrArg (·.2.1) hstate), heffects, fun wait hwait => .inl (hwaits ▸ hwait),
        fun effect hmem promise hsettles => .inl (hnew effect hmem promise hsettles), fun _ effect hmem wait _ hsettles => ?_⟩
      exact hnew effect hmem _ hsettles

theorem awaited_concat (s : List ConnectionStep) {a : ConnectionStep} (ha : a.awaits = none) :
    awaited (s ++ [a]) = awaited s := by
  rw [awaited, List.filterMap_append, List.filterMap_cons_none ha, List.filterMap_nil, List.append_nil, ← awaited]

theorem mem_promises_concat {s : List ConnectionStep} {a : ConnectionStep} {promise : Callback}
    (h : promise ∈ s.filterMap ConnectionStep.promise ∨ a.promise = some promise) :
    promise ∈ (s ++ [a]).filterMap ConnectionStep.promise := by
  rw [List.filterMap_append]
  rcases h with hmem | hlast
  · exact List.mem_append_left _ hmem
  · exact List.mem_append_right _ (List.mem_filterMap.mpr ⟨a, List.mem_cons_self, hlast⟩)

/-- A step that begins no wait. -/
theorem WaitBook.ends {s : List ConnectionStep} {a : ConnectionStep} {new : List ConnectionEffect} (h : WaitBook s c)
    (hdistinct : PromisesDistinct (s ++ [a])) (hnone : a.awaits = none) (hends : EndsWaits c a c' new)
    (hreading : c'.reading = true → c.reading = true) : WaitBook (s ++ [a]) c' := by
  have hpromise : ∀ wait ∈ c.settingsAckWaits, wait.promise ∈ awaited s :=
    fun wait hwait => mem_awaited_of_begun (h.begun wait hwait)
  have hgrows : c.effects ⊆ c'.effects := fun effect hmem => hends.effects ▸ List.mem_append_left new hmem
  have hawaited := awaited_concat s hnone
  refine ⟨fun wait hwait => ?_, fun promise hslot => ?_, fun wait hbegun => ?_, ?_, fun effect hmem promise hsettles => ?_,
    fun hreads wait hwait => ?_⟩
  · exact List.mem_append_left _ (h.begun wait (hends.waits.subset hwait))
  · rw [hawaited]
    rcases hends.slot with hsame | hempty
    · exact h.slot promise (hsame ▸ hslot)
    · exact absurd (hempty.symm.trans hslot).symm (Option.some_ne_none promise)
  · rcases List.mem_append.mp hbegun with hbegun | hlast
    · rcases h.kept wait hbegun with hwait | ⟨effect, hmem, hsettles⟩
      · refine (hends.ended wait hwait).imp_right fun ⟨effect, hmem, hsettles⟩ => ⟨effect, ?_, hsettles⟩
        exact hends.effects ▸ List.mem_append_right _ hmem
      · exact .inr ⟨effect, hgrows hmem, hsettles⟩
    · rw [← List.mem_singleton.mp hlast] at hnone
      exact absurd hnone (Option.some_ne_none _)
  · exact h.nodup.sublist (hends.waits.map _)
  · rw [hawaited]
    rw [hends.effects, List.mem_append] at hmem
    rcases hmem with hbefore | hnew
    · exact (h.known effect hbefore promise hsettles).imp_right fun hmem => mem_promises_concat (.inl hmem)
    · rcases hends.known effect hnew promise hsettles with hlast | hwait | hslot
      · exact .inr (mem_promises_concat (.inr hlast))
      · obtain ⟨wait, hmem, rfl⟩ := List.mem_map.mp hwait
        exact .inl (hpromise wait hmem)
      · exact .inl (h.slot promise hslot)
  · have hbefore := hends.waits.subset hwait
    rw [settlement_append hends.effects (h.unsettled (hreading hreads) wait hbefore), List.find?_eq_none]
    intro effect hmem hsettles
    have hlast := hends.unsettled hreads effect hmem wait hwait (of_decide_eq_true hsettles)
    exact hdistinct.other hlast (hpromise wait hbefore)

/-- A wait begins. -/
theorem WaitBook.begins {s : List ConnectionStep} {wait : SettingsAckWait} (h : WaitBook s c)
    (hdistinct : PromisesDistinct (s ++ [.waitForSettingsAck wait.promise wait.timeoutMs]))
    (hstate : c'.ackState = (c.settingsAckWaits ++ [wait], some wait.promise, c.reading)) (heffects : c'.effects = c.effects) :
    WaitBook (s ++ [.waitForSettingsAck wait.promise wait.timeoutMs]) c' := by
  have hpromise : ∀ wait ∈ c.settingsAckWaits, wait.promise ∈ awaited s :=
    fun wait hwait => mem_awaited_of_begun (h.begun wait hwait)
  have hwaits : c'.settingsAckWaits = c.settingsAckWaits ++ [wait] := congrArg Prod.fst hstate
  have hslot : c'.settingsAckReject = some wait.promise := congrArg (·.2.1) hstate
  have hreads : c'.reading = c.reading := congrArg (·.2.2) hstate
  have hlast : .waitForSettingsAck wait.promise wait.timeoutMs ∈ s ++ [.waitForSettingsAck wait.promise wait.timeoutMs] :=
    List.mem_append_right _ List.mem_cons_self
  obtain ⟨hawaited, hother'⟩ := @PromisesDistinct.fresh s (.waitForSettingsAck wait.promise wait.timeoutMs) _ hdistinct rfl
  have hgrows : awaited s ⊆ awaited (s ++ [.waitForSettingsAck wait.promise wait.timeoutMs]) := by
    rw [awaited, awaited, List.filterMap_append]
    exact List.subset_append_left _ _
  refine ⟨fun other hother => ?_, fun promise hsome => ?_, fun other hbegun => ?_, ?_, fun effect hmem promise hsettles => ?_,
    fun hreading other hother => ?_⟩
  · rw [hwaits] at hother
    rcases List.mem_append.mp hother with hbefore | hnew
    · exact List.mem_append_left _ (h.begun other hbefore)
    · exact List.mem_singleton.mp hnew ▸ hlast
  · rw [hslot] at hsome
    exact Option.some.inj hsome ▸ mem_awaited_of_begun hlast
  · rw [hwaits, heffects]
    rcases List.mem_append.mp hbegun with hbefore | hnew
    · exact (h.kept other hbefore).imp_left fun hmem => List.mem_append_left _ hmem
    · refine .inl (List.mem_append_right _ ?_)
      obtain ⟨hpromise, htimeout⟩ := ConnectionStep.waitForSettingsAck.inj (List.mem_singleton.mp hnew)
      cases wait
      cases other
      exact List.mem_singleton.mpr (congrArg₂ SettingsAckWait.mk hpromise htimeout)
  · rw [hwaits, List.map_append, List.nodup_append]
    refine ⟨h.nodup, List.nodup_singleton _, fun promise hmem other hother => ?_⟩
    obtain rfl := List.mem_singleton.mp hother
    obtain ⟨before, hbefore, rfl⟩ := List.mem_map.mp hmem
    exact fun hsame => hawaited (hsame ▸ hpromise before hbefore)
  · rw [heffects] at hmem
    exact (h.known effect hmem promise hsettles).imp (fun hknown => hgrows hknown) fun hknown => mem_promises_concat (.inl hknown)
  · have hsame : c'.settlement other.promise = c.settlement other.promise := by rw [settlement, heffects, ← settlement]
    rw [hwaits] at hother
    rcases List.mem_append.mp hother with hbefore | hnew
    · exact hsame.trans (h.unsettled (hreads ▸ hreading) other hbefore)
    · obtain rfl := List.mem_singleton.mp hnew
      refine hsame.trans (settlement_eq_none_iff.mpr fun effect hmem hsettles => ?_)
      exact (h.known effect hmem _ hsettles).elim hawaited hother'

theorem WaitBook.step {s : List ConnectionStep} {a : ConnectionStep} (h : WaitBook s c) (hdistinct : PromisesDistinct (s ++ [a]))
    (hmoves : AckMoves c a c') : WaitBook (s ++ [a]) c' := by
  rcases hmoves.awaits with hnone | ⟨wait, rfl, hstate, heffects⟩
  · obtain ⟨new, hends⟩ := hmoves.endsWaits hnone h.nodup
    exact h.ends hdistinct hnone hends hmoves.reading
  · exact h.begins hdistinct hstate heffects

theorem run_waitBook (options : Http2Options) {s : List ConnectionStep} (hdistinct : PromisesDistinct s) :
    WaitBook s (run options s) := by
  induction s using List.reverseRecOn with
  | nil =>
      have hno : ∀ {α : Type} {P : α → Prop}, ∀ a ∈ ([] : List α), P a := fun a hmem => absurd hmem List.not_mem_nil
      exact ⟨hno, fun promise hslot => absurd hslot.symm (Option.some_ne_none promise), fun _ hbegun => absurd hbegun List.not_mem_nil,
        List.nodup_nil, hno, fun _ => hno⟩
  | append_singleton s a ih =>
      rw [run_concat]
      exact (ih hdistinct.of_append).step hdistinct (step_ackMoves _ a)

/-! ### Pending waits -/

/-- A wait has begun and nothing has settled it yet. -/
def PendingAck (options : Http2Options) (s : List ConnectionStep) (wait : SettingsAckWait) : Prop :=
  .waitForSettingsAck wait.promise wait.timeoutMs ∈ s ∧ (run options s).settlement wait.promise = none

theorem pendingAck_iff {options : Http2Options} {s : List ConnectionStep} (hdistinct : PromisesDistinct s)
    (hreading : (run options s).reading = true) {wait : SettingsAckWait} :
    PendingAck options s wait ↔ wait ∈ (run options s).settingsAckWaits := by
  have hbook := run_waitBook options hdistinct
  constructor
  · rintro ⟨hbegun, hnone⟩
    refine (hbook.kept wait hbegun).resolve_right ?_
    rintro ⟨effect, hmem, hsettles⟩
    exact settlement_eq_none_iff.mp hnone effect hmem hsettles
  · exact fun hwait => ⟨hbook.begun wait hwait, hbook.unsettled hreading wait hwait⟩

/-- What is in the shared field belongs to the wait begun last, and all waits it found are still set. -/
theorem run_slot {options : Http2Options} {s : List ConnectionStep} (hreading : (run options s).reading = true) {promise : Callback}
    (hslot : (run options s).settingsAckReject = some promise) :
    ∃ earlier timeoutMs since, s = earlier ++ .waitForSettingsAck promise timeoutMs :: since ∧ (∀ a ∈ since, a.awaits = none) ∧
      (run options s).settingsAckWaits = (run options earlier).settingsAckWaits ++ [⟨promise, timeoutMs⟩] := by
  induction s using List.reverseRecOn with
  | nil => exact absurd hslot.symm (Option.some_ne_none promise)
  | append_singleton s a ih =>
      rw [run_concat] at hreading hslot ⊢
      have hmoves := (run options s).step_ackMoves a
      have hbefore := hmoves.reading hreading
      generalize (run options s).step a = after at hmoves hslot hreading
      have hcleared : after.settingsAckReject = none → False :=
        fun h => absurd (h.symm.trans hslot).symm (Option.some_ne_none promise)
      cases hmoves with
      | begun wait hs hstate heffects =>
          obtain rfl : wait.promise = promise := Option.some.inj ((congrArg (·.2.1) hstate).symm.trans hslot)
          exact ⟨s, wait.timeoutMs, [], hs ▸ rfl, fun _ hmem => absurd hmem List.not_mem_nil, congrArg Prod.fst hstate⟩
      | expired wait hwait hs hstate heffects => exact (hcleared (congrArg (·.2.1) hstate)).elim
      | acked hwaits hempty heffects _ hs hfails => exact (hcleared hempty).elim
      | failed e hfails hopen hstate heffects => exact (hcleared (congrArg (·.2.1) hstate)).elim
      | quiet hs hfails hstate _ heffects =>
          have hsame : after.settingsAckReject = (run options s).settingsAckReject := congrArg (·.2.1) hstate
          obtain ⟨earlier, timeoutMs, since, rfl, hnone, hwaits⟩ := ih hbefore (hsame.symm.trans hslot)
          refine ⟨earlier, timeoutMs, since ++ [a], by rw [List.append_assoc]; rfl, fun b hmem => ?_, ?_⟩
          · rcases List.mem_append.mp hmem with hmem | hmem
            · exact hnone b hmem
            · exact List.mem_singleton.mp hmem ▸ hs
          · exact (congrArg Prod.fst hstate).trans hwaits

/-- A wait that was begun alone stays alone and keeps the shared field until it ends. -/
theorem steps_alone {wait : SettingsAckWait} {since : List ConnectionStep} (hsince : ∀ a ∈ since, a.awaits = none)
    (hwaits : c.settingsAckWaits = [wait]) (hslot : c.settingsAckReject = some wait.promise) (hreading : (c.steps since).reading = true) :
    (c.steps since).settingsAckWaits = [] ∨
      (c.steps since).settingsAckWaits = [wait] ∧ (c.steps since).settingsAckReject = some wait.promise := by
  induction since using List.reverseRecOn with
  | nil => exact .inr ⟨hwaits, hslot⟩
  | append_singleton since a ih =>
      rw [steps_concat] at hreading ⊢
      have hmoves := (c.steps since).step_ackMoves a
      have hbefore := ih (fun b hmem => hsince b (List.mem_append_left _ hmem)) (hmoves.reading hreading)
      have hnone := hsince a (List.mem_append_right _ List.mem_cons_self)
      generalize (c.steps since).step a = after at hmoves hreading
      cases hmoves with
      | begun wait hs hstate heffects => exact absurd (hs ▸ hnone) (Option.some_ne_none _)
      | expired other hother hs hstate heffects =>
          have hleft : after.settingsAckWaits = (c.steps since).settingsAckWaits.erase other := congrArg Prod.fst hstate
          rcases hbefore with hempty | ⟨hsingle, -⟩
          · rw [hempty] at hother
            exact absurd hother List.not_mem_nil
          · rw [hsingle] at hother hleft
            rw [List.mem_singleton.mp hother, List.erase_cons_head] at hleft
            exact .inl hleft
      | acked hended hempty heffects _ hs hfails => exact .inl hended
      | failed e hfails hopen hstate heffects =>
          exact absurd ((congrArg (·.2.2) hstate).symm.trans hreading) Bool.false_ne_true
      | quiet hs hfails hstate _ heffects =>
          rw [show after.settingsAckWaits = (c.steps since).settingsAckWaits from congrArg Prod.fst hstate,
            show after.settingsAckReject = (c.steps since).settingsAckReject from congrArg (·.2.1) hstate]
          exact hbefore

/-- Whenever `handleFatal` runs with an error, every wait that is pending is rejected with that error, and stays
so. -/
def FatalUnmasked (options : Http2Options) (s : List ConnectionStep) : Prop :=
  ∀ before a after e, s = before ++ a :: after → (run options before).fails a = some e →
    ∀ wait, PendingAck options before wait →
      (run options (before ++ [a])).settlement wait.promise = some (.reject wait.promise e) ∧
        (run options s).settlement wait.promise = some (.reject wait.promise e)

/-- Whenever `handleFatal` runs, a wait that is pending is the only one, of a connection that is still open: none was
pending when it was begun, and none has been begun since. -/
def FailsAlone (options : Http2Options) (s : List ConnectionStep) : Prop :=
  ∀ before a after, s = before ++ a :: after → (run options before).fails a ≠ none →
    ∀ wait, PendingAck options before wait →
      (run options before).closed = false ∧
        ∃ earlier since, before = earlier ++ .waitForSettingsAck wait.promise wait.timeoutMs :: since ∧
          (∀ other, ¬ PendingAck options earlier other) ∧ ∀ b ∈ since, b.awaits = none

theorem find_settles_eq_none {effects : List ConnectionEffect} {promise : Callback} (h : ∀ effect ∈ effects, effect.settles ≠ some promise) :
    (effects.find? fun effect => effect.settles = some promise) = none :=
  List.find?_eq_none.mpr fun effect hmem hsettles => h effect hmem (of_decide_eq_true hsettles)

/-- A failure settles the promise in the shared field of a connection that is open, and no other pending one. -/
theorem fails_settlement {a : ConnectionStep} {e : JsError} {promise : Callback} (hfails : c.fails a = some e)
    (hpending : c.settlement promise = none) :
    (c.step a).settlement promise =
      if c.closed = false ∧ c.settingsAckReject = some promise then some (.reject promise e) else none := by
  have hother : ∀ {effect : ConnectionEffect}, effect.settles = none → effect.settles ≠ some promise :=
    fun hnone hsettles => absurd (hnone.symm.trans hsettles).symm (Option.some_ne_none promise)
  have hmoves := c.step_ackMoves a
  generalize c.step a = after at hmoves
  cases hmoves with
  | begun wait hs hstate heffects =>
      rw [hs] at hfails
      exact absurd hfails.symm (Option.some_ne_none e)
  | expired wait hwait hs hstate heffects =>
      rw [hs] at hfails
      exact absurd hfails.symm (Option.some_ne_none e)
  | acked hwaits hempty heffects hreading hs hnone => exact absurd (hnone.symm.trans hfails).symm (Option.some_ne_none e)
  | failed e' hfails' hopen hstate heffects =>
      obtain ⟨before, later, heffects, hnone⟩ := heffects
      obtain rfl : e' = e := Option.some.inj (hfails'.symm.trans hfails)
      have hbefore := find_settles_eq_none fun effect hmem => hother (hnone effect (List.mem_append_left later hmem))
      have hlater := find_settles_eq_none fun effect hmem => hother (hnone effect (List.mem_append_right before hmem))
      rw [List.append_assoc, List.append_assoc] at heffects
      rw [settlement_append heffects hpending, List.find?_append, hbefore, Option.none_or, List.find?_append, hlater, Option.or_none]
      by_cases hslot : c.settingsAckReject = some promise
      · rw [if_pos ⟨hopen, hslot⟩, hslot, Option.map_some, Option.toList_some]
        exact List.find?_cons_of_pos (decide_eq_true rfl)
      · rw [if_neg fun h => hslot h.2]
        refine find_settles_eq_none fun effect hmem hsettles => hslot ?_
        obtain ⟨rejected, hsome, rfl⟩ := Option.map_eq_some_iff.mp (Option.mem_toList.mp hmem)
        exact hsome.trans hsettles
  | quiet hs hclosed hstate hreading heffects =>
      obtain ⟨new, heffects, hnew⟩ := heffects
      rw [settlement_append heffects hpending, if_neg fun h => absurd ((hclosed e hfails).1.symm.trans h.1) (by decide)]
      refine find_settles_eq_none fun effect hmem hsettles => ?_
      exact absurd ((fails_promise hfails).symm.trans (hnew effect hmem promise hsettles)).symm (Option.some_ne_none promise)

theorem none_pending_iff {options : Http2Options} {s : List ConnectionStep} (hdistinct : PromisesDistinct s)
    (hreading : (run options s).reading = true) :
    (∀ wait, ¬ PendingAck options s wait) ↔ (run options s).settingsAckWaits = [] := by
  rw [List.eq_nil_iff_forall_not_mem]
  exact forall_congr' fun wait => not_congr (pendingAck_iff hdistinct hreading)

/-- When every pending wait has its way to be rejected in the shared field, it began when none was pending, and none
has begun since. -/
theorem pending_alone {options : Http2Options} {s : List ConnectionStep} (hdistinct : PromisesDistinct s)
    (hreading : (run options s).reading = true)
    (hslots : ∀ other, PendingAck options s other → (run options s).settingsAckReject = some other.promise)
    (hpending : PendingAck options s wait) :
    ∃ earlier since, s = earlier ++ .waitForSettingsAck wait.promise wait.timeoutMs :: since ∧
      (∀ other, ¬ PendingAck options earlier other) ∧ ∀ b ∈ since, b.awaits = none := by
  have hset : ∀ other, PendingAck options s other ↔ other ∈ (run options s).settingsAckWaits := fun other =>
    pendingAck_iff hdistinct hreading
  have hslot := hslots wait hpending
  obtain ⟨earlier, timeoutMs, since, hsplit, hsince, hwaits⟩ := run_slot hreading hslot
  have hnodup := (run_waitBook options hdistinct).nodup
  rw [hwaits, List.map_append] at hnodup
  -- Another wait that was set would have its own way to be rejected in the field.
  have hnone : (run options earlier).settingsAckWaits = [] := by
    refine List.eq_nil_iff_forall_not_mem.mpr fun other hother => ?_
    have hsame := (hslots other ((hset other).mpr (hwaits ▸ List.mem_append_left _ hother))).symm.trans hslot
    have hmem : wait.promise ∈ (run options earlier).settingsAckWaits.map SettingsAckWait.promise :=
      Option.some.inj hsame ▸ List.mem_map_of_mem hother
    exact List.disjoint_of_nodup_append hnodup hmem List.mem_cons_self
  rw [hnone, List.nil_append] at hwaits
  have hwait : wait = ⟨wait.promise, timeoutMs⟩ := List.mem_singleton.mp (hwaits ▸ (hset wait).mp hpending)
  rw [hsplit] at hdistinct hreading
  rw [run_append] at hreading
  refine ⟨earlier, since, ?_, (none_pending_iff hdistinct.of_append (steps_reading hreading)).mpr hnone, hsince⟩
  rw [hsplit, hwait]

/-- A pending wait that began when none was, with none begun since, has its way to be rejected in the shared field. -/
theorem slot_of_alone {options : Http2Options} {earlier since : List ConnectionStep}
    (hdistinct : PromisesDistinct (earlier ++ .waitForSettingsAck wait.promise wait.timeoutMs :: since))
    (hreading : (run options (earlier ++ .waitForSettingsAck wait.promise wait.timeoutMs :: since)).reading = true)
    (hnone : ∀ other, ¬ PendingAck options earlier other) (hsince : ∀ b ∈ since, b.awaits = none)
    (hpending : PendingAck options (earlier ++ .waitForSettingsAck wait.promise wait.timeoutMs :: since) wait) :
    (run options (earlier ++ .waitForSettingsAck wait.promise wait.timeoutMs :: since)).settingsAckReject = some wait.promise := by
  have hset := (pendingAck_iff hdistinct hreading).mp hpending
  rw [run_append] at hreading hset ⊢
  have hempty := (none_pending_iff hdistinct.of_append (steps_reading hreading)).mp hnone
  have hbegun : ((run options earlier).step (.waitForSettingsAck wait.promise wait.timeoutMs)).settingsAckWaits = [wait] := by
    show (run options earlier).settingsAckWaits ++ [wait] = [wait]
    rw [hempty, List.nil_append]
  rcases steps_alone hsince hbegun rfl hreading with hended | ⟨-, hslot⟩
  · exact absurd (hended ▸ hset : wait ∈ []) List.not_mem_nil
  · exact hslot

end Http2Connection

open Http2Connection in
/-- In every run whose waits have promises of their own: fatal errors are never masked exactly when every wait that
is pending while `handleFatal` runs is alone, in a connection that is still open. -/
theorem fatal_unmasked_iff (options : Http2Options) (s : List ConnectionStep) (hdistinct : PromisesDistinct s) :
    FatalUnmasked options s ↔ FailsAlone options s := by
  constructor
  · rintro h before a after rfl hfails wait hpending
    obtain ⟨e, hfails⟩ := Option.ne_none_iff_exists'.mp hfails
    have hfound : ∀ other, PendingAck options before other →
        (run options before).closed = false ∧ (run options before).settingsAckReject = some other.promise := by
      intro other hother
      have hrejected := (h before a after e rfl hfails other hother).1
      rw [run_concat, fails_settlement hfails hother.2] at hrejected
      exact (Option.ite_none_right_eq_some.mp hrejected).1
    refine ⟨(hfound wait hpending).1, ?_⟩
    exact pending_alone hdistinct.of_append (fails_reading hfails) (fun other hother => (hfound other hother).2) hpending
  · rintro h before a after e rfl hfails wait hpending
    have hreading := fails_reading hfails
    have hfailing : (run options before).fails a ≠ none := by
      rw [hfails]
      exact Option.some_ne_none e
    obtain ⟨hopen, earlier, since, hsplit, hnone, hsince⟩ := h before a after rfl hfailing wait hpending
    have hprefix : PromisesDistinct before := hdistinct.of_append
    have hslot : (run options before).settingsAckReject = some wait.promise := by
      rw [hsplit] at hprefix hreading hpending ⊢
      exact slot_of_alone hprefix hreading hnone hsince hpending
    have hrejected := fails_settlement hfails hpending.2
    rw [if_pos ⟨hopen, hslot⟩, ← run_concat] at hrejected
    refine ⟨hrejected, settlement_of_prefix hrejected ?_⟩
    have hlater : before ++ a :: after = before ++ [a] ++ after := by rw [List.append_assoc]; rfl
    rw [hlater, run_append options (before ++ [a])]
    exact (steps_advances _ after).effects

/-- A wait is pending when reading fails. -/
def failedWait : List ConnectionStep := [.waitForSettingsAck 0 5000, .readError (.transport "closed")]

open Http2Connection in
theorem fatal_unmasked_iff_failedWait :
    PromisesDistinct failedWait ∧ (FatalUnmasked {} failedWait ↔ FailsAlone {} failedWait) :=
  have hdistinct : PromisesDistinct failedWait := ⟨by decide, List.disjoint_left.mpr (by decide)⟩
  ⟨hdistinct, fatal_unmasked_iff {} failedWait hdistinct⟩

/-- A wait runs out while another is pending, and then reading fails. -/
def maskedRun : List ConnectionStep :=
  [.waitForSettingsAck 0 5000, .waitForSettingsAck 1 10000, .settingsAckTimeout ⟨0, 5000⟩, .readError (.transport "closed"),
    .settingsAckTimeout ⟨1, 10000⟩]

open Http2Connection in
/-- The wait that is left is not rejected with the error of the connection, and times out. -/
theorem maskedRun_masked :
    PromisesDistinct maskedRun ∧ ¬ FatalUnmasked {} maskedRun ∧
      (run {} maskedRun).settlement 1 = some (.reject 1 (.http2 (.settingsAckTimeout 10000))) := by
  have hsettled : (run {} maskedRun).settlement 1 = some (.reject 1 (.http2 (.settingsAckTimeout 10000))) := by decide +kernel
  refine ⟨⟨by decide, List.disjoint_left.mpr (by decide)⟩, fun h => ?_, hsettled⟩
  have hrejected :=
    (h (maskedRun.take 3) (.readError (.transport "closed")) (maskedRun.drop 4) (.transport "closed") rfl (by decide +kernel)
    ⟨1, 10000⟩ ⟨by decide, by decide +kernel⟩).2
  exact absurd (hsettled.symm.trans hrejected) (by decide)

end BrowsercoreHttp2
