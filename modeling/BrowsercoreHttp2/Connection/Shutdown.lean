import BrowsercoreHttp2.Connection.Waiters

/-!
# Waiters at shutdown

Once the connection is closing, nobody waits for a slot any more: a waiter that is woken runs on, opens a
stream, is rejected and wakes the next. So the waiters leave one after the other as soon as some call is ready
to run. `close()` and a fatal error wake them all. `goaway()` and a GOAWAY from the peer wake none by
themselves, and where no call is ready and no active stream is rejected, the waiters stay.
-/

namespace BrowsercoreHttp2

namespace Http2Connection

/-- As long as calls wait, one is ready to run. -/
def SomeReady (c : Http2Connection) : Prop := c.slotWaiters ≠ [] → c.woken ≠ [] ∨ c.granted ≠ []

/-- The condition a step has to meet: when it begins closing without waking every waiter, some call is ready,
nobody waits, or the GOAWAY rejects an active stream. -/
def ReleasesWaiters (c : Http2Connection) : ConnectionStep → Prop
  | .goaway _ _ _ => c.closing = false → c.SomeReady
  | .receiveFrame (.goaway frame) =>
      c.reading = true → c.closing = false → c.SomeReady ∨ ∃ id ∈ c.activeClientStreams.entries, frame.lastStreamId < id
  | _ => True

variable {c c' : Http2Connection} {call : RequestCall}

/-! ### When closing begins -/

theorem onEffect_closing (c : Http2Connection) {effect : Effect}
    (h : ∀ lastStreamId errorCode debugData, effect ≠ .emitEvent (.goaway lastStreamId errorCode debugData)) :
    (c.onEffect effect).closing = c.closing := by
  cases effect with
  | emitEvent event =>
      cases event with
      | goaway lastStreamId errorCode debugData => exact absurd rfl (h lastStreamId errorCode debugData)
      | streamClosed streamId =>
          simp only [onEffect, onEvent, onStreamClosed, releaseSlot]
          split
          · split <;> rfl
          · rfl
      | settingsAck =>
          simp only [onEffect, onEvent, onSettingsAck]
          split <;> rfl
      | _ => rfl
  | _ => rfl

theorem manage_closing (c : Http2Connection) {op : ManagerOp} (hop : op.scope ≠ .departs) : (c.manage op).closing = c.closing := by
  apply managed_induction (motive := fun c' => c'.closing = c.closing) c
  · rfl
  · intro c' effect hmem hkept
    refine (c'.onEffect_closing ?_).trans hkept
    rintro lastStreamId errorCode debugData rfl
    exact hop (of_decide_eq_true (c.manager.newEffects_allowed op _ hmem))

/-! ### Some call is ready -/

theorem SomeReady.wakes (h : c.SomeReady) (hwakes : Wakes c c') (hgranted : c'.granted = c.granted) : c'.SomeReady := by
  intro hwaits
  rcases h (hwakes.slotWaiters_ne_nil hwaits) with hwoken | hready
  · obtain ⟨freed, -, hmore⟩ := hwakes
    rw [hmore]
    exact .inl (List.append_ne_nil_of_left_ne_nil hwoken freed)
  · exact .inr (hgranted.symm ▸ hready)

theorem SomeReady.of_fewer (hfrees : Frees c c') (hless : c'.activeCount < c.activeCount) : c'.SomeReady := by
  intro hwaits
  have hcount := hfrees hwaits
  refine .inl fun hnone => ?_
  rw [hnone, List.length_nil] at hcount
  omega

theorem manage_goaway_ready (hids : c.Accounted) (frame : GoawayFrame) {id : StreamId} (hactive : id ∈ c.activeClientStreams.entries)
    (hid : frame.lastStreamId < id) : (c.manage (.dispatch (.goaway frame))).SomeReady := by
  have hgone : id ∉ (c.manage (.dispatch (.goaway frame))).activeClientStreams.entries := by
    intro hmem
    have hkey := (hids.manage (.dispatch (.goaway frame))).kept id hmem
    rw [manage, managed_manager] at hkey
    obtain ⟨st, hst, rfl⟩ := List.mem_map.mp hkey
    exact absurd (Manager.handleGoaway_id_le c.manager frame st hst) (not_le.mpr hid)
  have hsub := (c.managed_hears (c.manager.step (.dispatch (.goaway frame)))).active
  refine .of_fewer (c.managed_frees _) (lt_of_le_of_ne hsub.length_le fun hsame => ?_)
  exact hgone (hsub.eq_of_length hsame ▸ hactive)

theorem SomeReady.aside (h : c.SomeReady) (haside : Aside c c') : c'.SomeReady := by
  intro hwaits
  rw [haside.woken, haside.granted]
  exact h (haside.slotWaiters ▸ hwaits)

theorem TornDown.someReady {err : JsError} (h : TornDown c c' err) : c'.SomeReady := fun hwaits => absurd h.slotWaiters hwaits

theorem acquireSlot_ready (hclosing : c.closing = true) (call : RequestCall) : (c.acquireSlot call).SomeReady := by
  have hfree : c.slotFree = true := by rw [slotFree, hclosing, Bool.true_or, Bool.true_or]
  rw [acquireSlot, if_pos hfree]
  exact fun _ => .inr (List.append_ne_nil_of_right_ne_nil _ (List.cons_ne_nil _ _))

theorem resume_ready (h : c.SomeReady) (hclosing : c.closing = true) (call : RequestCall) : (c.resume call).SomeReady := by
  rw [resume]
  split
  · rw [openRequestStream_eq, executeRequest]
    dsimp only
    rw [if_pos (by rw [hclosing, Bool.true_or]), releaseSlot]
    split
    · rename_i hnone
      exact fun hwaits => absurd hnone hwaits
    · exact fun _ => .inl (List.append_ne_nil_of_right_ne_nil _ (List.cons_ne_nil _ _))
  · exact h

theorem acquireSlot_closing (c : Http2Connection) (call : RequestCall) : (c.acquireSlot call).closing = c.closing := by
  rw [acquireSlot]
  split <;> rfl

theorem executeRequest_closing (c : Http2Connection) (streamId : StreamId) (call : RequestCall) :
    (c.executeRequest streamId call).closing = c.closing := by
  apply executeRequest_induction (motive := fun c' => c'.closing = c.closing) c streamId call
  · intro _
    rw [releaseSlot]
    split <;> rfl
  · exact fun _ => c.manage_closing (by simp [ManagerOp.scope])
  · exact fun c' effect _ hbefore => hbefore
  · exact fun c' data hbefore => (c'.manage_closing (by simp [ManagerOp.scope])).trans hbefore

theorem resume_closing (c : Http2Connection) (call : RequestCall) : (c.resume call).closing = c.closing := by
  rw [resume]
  split
  · rw [executeRequest_closing, openRequestStream_eq]
  · rfl

theorem manage_frame_ready (h : c.closing = true → c.SomeReady) (hids : c.Accounted) (hreading : c.reading = true) {frame : Frame}
    (hreleases : c.ReleasesWaiters (.receiveFrame frame)) (hclosing : (c.manage (.dispatch frame)).closing = true) :
    (c.manage (.dispatch frame)).SomeReady := by
  have hgranted : (c.manage (.dispatch frame)).granted = c.granted := (c.managed_hears _).granted
  have hkept : c.SomeReady → (c.manage (.dispatch frame)).SomeReady := fun hready => hready.wakes (c.managed_wakes _) hgranted
  cases hbefore : c.closing with
  | true => exact hkept (h hbefore)
  | false =>
      cases frame with
      | goaway frame =>
          rcases hreleases hreading hbefore with hready | ⟨id, hactive, hid⟩
          · exact hkept hready
          · exact manage_goaway_ready hids frame hactive hid
      | _ =>
          rw [manage_closing c (by simp [ManagerOp.scope]), hbefore] at hclosing
          exact absurd hclosing (by decide)

/-- A step that meets its condition leaves some call ready as long as calls wait in a closing connection. -/
theorem Moves.ready {s : ConnectionStep} (hmoves : Moves c s c') (h : c.closing = true → c.SomeReady) (hids : c.Accounted)
    (hreleases : c.ReleasesWaiters s) (hclosing : c'.closing = true) : c'.SomeReady := by
  cases hmoves with
  | aside haside => exact (h (haside.closing.symm.trans hclosing)).aside haside
  | requested call hopen =>
      obtain ⟨hbefore, -⟩ := Bool.or_eq_false_iff.mp hopen
      rw [acquireSlot_closing, hbefore] at hclosing
      exact absurd hclosing (by decide)
  | woke call hcall =>
      rw [acquireSlot_closing] at hclosing
      exact acquireSlot_ready hclosing call
  | resumed call hcall =>
      rw [resume_closing] at hclosing
      exact resume_ready (h hclosing) hclosing call
  | leaving lastStreamId errorCode debugData =>
      cases hbefore : c.closing with
      | true => exact h hbefore
      | false => exact hreleases hbefore
  | tornDown hopen htorn => exact htorn.someReady
  | received frame hreading haside =>
      exact (manage_frame_ready h hids hreading hreleases (haside.closing.symm.trans hclosing)).aside haside
  | failed frame hreading hopen htorn => exact htorn.someReady

/-! ### A call that runs on while the connection closes -/

theorem resume_rejects (hclosing : c.closing = true) (hcall : call ∈ c.granted) :
    .reject call.promise c.closingError ∈ c.newEffects (c.resume call) := by
  apply mem_newEffects
  rw [resume, if_pos hcall, openRequestStream_eq, executeRequest]
  dsimp only
  rw [if_pos (by rw [hclosing, Bool.true_or]), releaseSlot]
  split <;> exact List.prefix_rfl

/-- In a closing connection a call stays on its way until it is rejected with the error the connection then has. -/
theorem steps_rejects (hclosing : c.closing = true) (hcall : call ∈ c.pending) (after : List ConnectionStep) :
    call ∈ (c.steps after).pending ∨
      ∃ mid rest, after = mid ++ rest ∧ .reject call.promise (c.steps mid).closingError ∈ c.newEffects (c.steps after) := by
  induction after generalizing c with
  | nil => exact .inl hcall
  | cons s after ih =>
      have hadvances := c.step_advances s
      rcases step_pending hcall s with hstays | ⟨rfl, hgranted⟩
      · refine (ih (hadvances.closing hclosing) hstays).imp_right ?_
        rintro ⟨mid, rest, rfl, hreject⟩
        exact ⟨s :: mid, rest, rfl, newEffects_subset_left hadvances.effects _ hreject⟩
      · refine .inr ⟨[], .resume call :: after, rfl, ?_⟩
        have hlater := ((c.step (.resume call)).steps_advances after).effects
        exact (hlater.drop c.effects.length).subset (resume_rejects hclosing hgranted)

/-! ### When the condition fails -/

theorem onEffect_waiting (c : Http2Connection) {effect : Effect}
    (h : ∀ id, effect = .emitEvent (.streamClosed id) → id ∉ c.activeClientStreams.entries) :
    (c.onEffect effect).slotWaiters = c.slotWaiters ∧ (c.onEffect effect).woken = c.woken := by
  cases effect with
  | emitEvent event =>
      cases event with
      | streamClosed id =>
          have habsent : ¬ (c.perform (.manager (.emitEvent (.streamClosed id)))).activeClientStreams.contains id = true := by
            intro hcontains
            obtain ⟨found, hfound⟩ := Option.isSome_iff_exists.mp hcontains
            have hmem := Table.mem_of_get hfound
            exact h id rfl (Table.key_of_get hfound ▸ hmem)
          simp only [onEffect, onEvent, onStreamClosed, if_neg habsent]
          exact ⟨rfl, rfl⟩
      | settingsAck =>
          simp only [onEffect, onEvent, onSettingsAck]
          split <;> exact ⟨rfl, rfl⟩
      | _ => exact ⟨rfl, rfl⟩
  | _ => exact ⟨rfl, rfl⟩

theorem foldl_onEffect_waiting (c : Http2Connection) {effects : List Effect}
    (h : ∀ id, .emitEvent (.streamClosed id) ∈ effects → id ∉ c.activeClientStreams.entries) :
    (effects.foldl onEffect c).slotWaiters = c.slotWaiters ∧ (effects.foldl onEffect c).woken = c.woken := by
  induction effects generalizing c with
  | nil => exact ⟨rfl, rfl⟩
  | cons effect effects ih =>
      have hactive := (Hears.onEffect c effect).active
      obtain ⟨hwaiters, hwoken⟩ := c.onEffect_waiting fun id hid => h id (hid ▸ List.mem_cons_self)
      obtain ⟨hwaiters', hwoken'⟩ := ih (c.onEffect effect) fun id hid hmem =>
        h id (List.mem_cons_of_mem effect hid) (hactive.subset hmem)
      exact ⟨hwaiters'.trans hwaiters, hwoken'.trans hwoken⟩

/-- A GOAWAY that rejects no active stream begins closing and leaves every waiter where it is. -/
theorem receiveFrame_goaway_strands (hreading : c.reading = true) (frame : GoawayFrame)
    (hkeeps : ∀ id ∈ c.activeClientStreams.entries, id ≤ frame.lastStreamId) :
    (c.receiveFrame (.goaway frame)).closing = true ∧ (c.receiveFrame (.goaway frame)).slotWaiters = c.slotWaiters ∧
      (c.receiveFrame (.goaway frame)).woken = c.woken ∧ (c.receiveFrame (.goaway frame)).granted = c.granted := by
  obtain ⟨new, hnew, hclosed⟩ := c.manager.handleGoaway_effects frame
  let started : Http2Connection := { c with manager := c.manager.handleGoaway frame }
  let heard := started.onEffect (.emitEvent (.goaway frame.lastStreamId frame.errorCode frame.debugData))
  have hrun : c.manage (.dispatch (.goaway frame)) = new.foldl onEffect heard := by
    show c.managed (c.manager.handleGoaway frame) = _
    rw [managed, hnew, List.drop_left, List.foldl_cons]
  have hwaiting := @foldl_onEffect_waiting heard new fun id hid hmem => not_lt.mpr (hkeeps id hmem) (hclosed id hid)
  have hread : c.receiveFrame (.goaway frame) =
      { c.manage (.dispatch (.goaway frame)) with reading := !(c.manage (.dispatch (.goaway frame))).closed } := by
    rw [receiveFrame, if_pos hreading]
    rfl
  have hheard := Hears.foldl_onEffect heard new
  rw [hread, hrun]
  exact ⟨hheard.closing rfl, hwaiting.1, hwaiting.2, hheard.granted⟩

/-- A step that misses its condition strands the calls that wait. -/
theorem step_strands {s : ConnectionStep} (h : ¬ c.ReleasesWaiters s) :
    (c.step s).closing = true ∧ (c.step s).Quiescent ∧ (c.step s).slotWaiters ≠ [] := by
  cases s with
  | goaway lastStreamId errorCode debugData =>
      simp only [ReleasesWaiters, SomeReady, Classical.not_imp, not_or, not_not] at h
      obtain ⟨-, hwaits, hidle⟩ := h
      exact ⟨rfl, hidle, hwaits⟩
  | receiveFrame frame =>
      cases frame with
      | goaway frame =>
          simp only [ReleasesWaiters, SomeReady, Classical.not_imp, not_or, not_not, not_exists, not_and, not_lt] at h
          obtain ⟨hreading, -, ⟨hwaits, hwoken, hgranted⟩, hkeeps⟩ := h
          obtain ⟨hclosing, hwaiters', hwoken', hgranted'⟩ := receiveFrame_goaway_strands hreading frame hkeeps
          simp only [step]
          exact ⟨hclosing, ⟨hwoken'.trans hwoken, hgranted'.trans hgranted⟩, fun hnone => hwaits (hwaiters'.symm.trans hnone)⟩
      | _ => exact absurd trivial h
  | _ => exact absurd trivial h

/-! ### Whole runs -/

theorem run_ready {options : Http2Options} {s : List ConnectionStep} (hreleases : Throughout step ReleasesWaiters { options } s)
    (hclosing : (run options s).closing = true) : (run options s).SomeReady := by
  induction s using List.reverseRecOn with
  | nil => exact absurd hclosing (by simp)
  | append_singleton s a ih =>
      obtain ⟨hbefore, hlast⟩ := throughout_concat.mp hreleases
      rw [run_concat] at hclosing ⊢
      exact (step_moves _ a).ready (ih hbefore) (run_accounted options s) hlast hclosing

/-- After these steps no call is left behind in a closing connection that has come to rest: nobody waits, and
every call that was on its way at some moment of closing has been rejected with the error of the connection. -/
def NobodyStranded (options : Http2Options) (s : List ConnectionStep) : Prop :=
  (run options s).closing = true → (run options s).Quiescent →
    (run options s).slotWaiters = [] ∧
      ∀ before after, s = before ++ after → (run options before).closing = true → ∀ call ∈ (run options before).pending,
        ∃ mid rest, after = mid ++ rest ∧
          .reject call.promise (run options (before ++ mid)).closingError ∈ (run options before).newEffects (run options s)

end Http2Connection

open Http2Connection in
/-- No state of a run strands a call exactly if no step of the run begins closing while calls wait, none is
ready to run, and no active stream is rejected. -/
theorem nobody_stranded_iff (options : Http2Options) (s : List ConnectionStep) :
    (∀ before after, s = before ++ after → NobodyStranded options before) ↔ Throughout step ReleasesWaiters { options } s := by
  constructor
  · intro h
    refine throughout_of_reached h fun before a hreached => ?_
    by_contra hmisses
    obtain ⟨hclosing, hidle, hwaits⟩ := step_strands hmisses
    rw [NobodyStranded, run_concat] at hreached
    exact hwaits (hreached hclosing hidle).1
  · rintro h before after rfl hclosing ⟨hwoken, hgranted⟩
    have hready := run_ready (throughout_append.mp h).1 hclosing
    have hnone : (run options before).slotWaiters = [] := by
      by_contra hwaits
      exact (hready hwaits).elim (fun h => h hwoken) fun h => h hgranted
    refine ⟨hnone, ?_⟩
    rintro early late rfl hearly call hcall
    rw [run_append] at hnone hwoken hgranted ⊢
    rcases steps_rejects hearly hcall late with hleft | ⟨mid, rest, hsplit, hreject⟩
    · rw [pending, hnone, hwoken, hgranted] at hleft
      exact absurd hleft List.not_mem_nil
    · refine ⟨mid, rest, hsplit, ?_⟩
      rw [run_append]
      exact hreject

open Http2Connection in
/-- `goaway()` while a call waits: the connection is closing, nothing is left to run, and the call waits on. -/
theorem goaway_strands_waiter : ¬ NobodyStranded {} (oneWaiting ++ [.goaway 0 0 []]) := by
  intro h
  have hstranded : (run {} (oneWaiting ++ [.goaway 0 0 []])).closing = true ∧ (run {} (oneWaiting ++ [.goaway 0 0 []])).Quiescent ∧
      (run {} (oneWaiting ++ [.goaway 0 0 []])).slotWaiters ≠ [] := by decide +kernel
  exact hstranded.2.2 (h hstranded.1 hstranded.2.1).1

end BrowsercoreHttp2
