import BrowsercoreHttp2.Connection.Teardown

/-!
# Pings

A ping that is waiting is a listener of the manager and nothing else. Only a PING that comes back with its data
takes it away, and neither `close()` nor `handleFatal` looks for it.
-/

namespace BrowsercoreHttp2

namespace Http2Connection

variable {c : Http2Connection}

/-! ### One step -/

/-- The listener a step adds. -/
def pinged (c : Http2Connection) : ConnectionStep → List PingHandler
  | .ping promise data => if c.closed then [] else [⟨promise, data⟩]
  | _ => []

/-- The listeners after a step. -/
theorem step_pingHandlers (c : Http2Connection) (s : ConnectionStep) :
    (c.step s).pingHandlers = (c.pingHandlers.filter fun handler => c.acked s ≠ some handler.data) ++ c.pinged s := by
  cases hacked : c.acked s with
  | some data =>
      cases s with
      | receiveFrame frame =>
          simp only [step, (receiveFrame_acked hacked).2.1, pinged, List.append_nil, ne_eq, Option.some_inj]
          exact List.filter_congr fun handler _ => decide_eq_decide.mpr (not_congr eq_comm)
      | _ => exact absurd hacked.symm (Option.some_ne_none data)
  | none =>
      have hall : (c.pingHandlers.filter fun handler => (none : Option Nat) ≠ some handler.data) = c.pingHandlers :=
        List.filter_eq_self.mpr fun _ _ => rfl
      rw [hall]
      by_cases hclose : s = .close
      · subst hclose
        simp only [step, pinged, List.append_nil]
        cases hclosed : c.closed with
        | true => rw [close_of_closed hclosed]
        | false =>
            rw [close_eq hclosed]
            exact ((c.goaway 0 0 []).tearDown_steady (.http2 .connectionClosed)).pingHandlers
      · cases s with
        | ping promise data =>
            simp only [step, ping, pinged]
            split
            · exact (List.append_nil _).symm
            · rfl
        | _ =>
            rw [(step_steady hclose (by simp) hacked).pingHandlers]
            exact (List.append_nil _).symm

theorem step_resolvesPing {handler : PingHandler} (hhandler : handler ∈ c.pingHandlers) {s : ConnectionStep}
    (hacked : c.acked s = some handler.data) : .resolvePing handler.promise handler.data ∈ c.newEffects (c.step s) := by
  cases s with
  | receiveFrame frame =>
      simp only [step, newEffects, (receiveFrame_acked hacked).2.2, List.drop_left]
      apply List.mem_cons_of_mem
      exact List.mem_map.mpr ⟨handler, List.mem_filter.mpr ⟨hhandler, decide_eq_true rfl⟩, rfl⟩
  | _ => exact absurd hacked.symm (Option.some_ne_none _)

/-! ### Whole runs -/

/-- Among the steps the read loop gets a PING that comes back with this data. -/
def AckReceived (s : List ConnectionStep) (data : Nat) : Prop :=
  ∃ frame, .receiveFrame (.ping frame) ∈ s ∧ frame.ack = true ∧ frame.opaqueData = data

/-- A ping of a connection has been settled by the steps since: its PING came back and it was resolved, or it was
rejected. -/
def PingSettled (c : Http2Connection) (promise : Callback) (data : Nat) (after : List ConnectionStep) : Prop :=
  AckReceived after data ∧ .resolvePing promise data ∈ c.newEffects (c.steps (.ping promise data :: after)) ∨
    ∃ e, .reject promise e ∈ c.newEffects (c.steps (.ping promise data :: after))

/-- After these steps, if they have closed the connection, every ping is settled and no listener is left. -/
def PingsEnded (options : Http2Options) (s : List ConnectionStep) : Prop :=
  (run options s).closed = true → (run options s).pingHandlers = [] ∧
    ∀ before promise data after, s = before ++ .ping promise data :: after → PingSettled (run options before) promise data after

/-- What closes an open connection leaves no ping waiting, as none is. -/
def ClosesUnpinged (c : Http2Connection) (s : ConnectionStep) : Prop := c.closed = false → c.Closes s → c.pingHandlers = []

theorem ackReceived_of_acked {s : ConnectionStep} {data : Nat} (hacked : c.acked s = some data) : AckReceived [s] data := by
  cases s with
  | receiveFrame frame =>
      cases frame with
      | ping frame =>
          simp only [acked, Bool.and_eq_true, Option.ite_none_right_eq_some, Option.some_inj] at hacked
          exact ⟨frame, List.mem_cons_self, hacked.1.2, hacked.2⟩
      | _ => exact absurd hacked.symm (Option.some_ne_none data)
  | _ => exact absurd hacked.symm (Option.some_ne_none data)

theorem steps_pingHandlers {handler : PingHandler} (hhandler : handler ∈ c.pingHandlers) (s : List ConnectionStep) :
    handler ∈ (c.steps s).pingHandlers ∨
      AckReceived s handler.data ∧ .resolvePing handler.promise handler.data ∈ c.newEffects (c.steps s) := by
  induction s using List.reverseRecOn with
  | nil => exact .inl hhandler
  | append_singleton s a ih =>
      rw [steps_concat]
      rcases ih with hwaits | ⟨⟨frame, hmem, hack⟩, hresolved⟩
      · by_cases hacked : (c.steps s).acked a = some handler.data
        · obtain ⟨frame, hmem, hack⟩ := ackReceived_of_acked hacked
          refine .inr ⟨⟨frame, List.mem_append_right s hmem, hack⟩, ?_⟩
          exact newEffects_subset_left (c.steps_advances s).effects _ (step_resolvesPing hwaits hacked)
        · rw [step_pingHandlers]
          exact .inl (List.mem_append_left _ (List.mem_filter.mpr ⟨hwaits, decide_eq_true hacked⟩))
      · have hlater := ((c.steps s).step_advances a).effects
        exact .inr ⟨⟨frame, List.mem_append_left [a] hmem, hack⟩, (hlater.drop c.effects.length).subset hresolved⟩

/-- A ping is settled or its listener waits. -/
theorem ping_settles (c : Http2Connection) (promise : Callback) (data : Nat) (after : List ConnectionStep) :
    PingSettled c promise data after ∨ ⟨promise, data⟩ ∈ (c.steps (.ping promise data :: after)).pingHandlers := by
  cases hclosed : c.closed with
  | true =>
      refine .inl (.inr ⟨.http2 .connectionClosed, mem_newEffects ?_⟩)
      have hrejected : (c.step (.ping promise data)).effects = c.effects ++ [.reject promise (.http2 .connectionClosed)] := by
        simp only [step, ping, hclosed, if_pos]
        rfl
      rw [← hrejected]
      exact ((c.step (.ping promise data)).steps_advances after).effects
  | false =>
      have hlistens : ⟨promise, data⟩ ∈ (c.step (.ping promise data)).pingHandlers := by
        rw [step_pingHandlers]
        simp [pinged, hclosed]
      rcases steps_pingHandlers hlistens after with hwaits | ⟨hack, hresolved⟩
      · exact .inr hwaits
      · exact .inl (.inl ⟨hack, newEffects_subset_left (c.step_advances _).effects _ hresolved⟩)

/-- No listener waits in a closed connection. -/
def Unpinged (c : Http2Connection) : Prop := c.closed = true → c.pingHandlers = []

theorem Unpinged.step (h : c.Unpinged) {s : ConnectionStep} (hcloses : c.ClosesUnpinged s) : (c.step s).Unpinged := by
  intro hclosed
  cases hbefore : c.closed with
  | true =>
      have hnone : c.pinged s = [] := by
        cases s with
        | ping promise data => exact if_pos hbefore
        | _ => rfl
      rw [step_pingHandlers, h hbefore, hnone]
      rfl
  | false =>
      have hcauses := ((c.step_closed s).mp hclosed).resolve_left (Bool.eq_false_iff.mp hbefore)
      have hnone : c.pinged s = [] := by
        cases s with
        | ping promise data => exact absurd hcauses id
        | _ => rfl
      rw [step_pingHandlers, hcloses hbefore hcauses, hnone]
      rfl

theorem step_closes_pingHandlers {s : ConnectionStep} (hcloses : c.Closes s) : (c.step s).pingHandlers = c.pingHandlers := by
  have hacked : c.acked s = none := by
    cases s with
    | receiveFrame frame =>
        cases frame with
        | ping frame => exact absurd rfl hcloses.2
        | _ => rfl
    | _ => rfl
  have hnone : c.pinged s = [] := by
    cases s with
    | ping promise data => exact absurd hcloses id
    | _ => rfl
  rw [step_pingHandlers, hacked, hnone, List.append_nil]
  exact List.filter_eq_self.mpr fun _ _ => rfl

end Http2Connection

open Http2Connection in
/-- In every state of a run that is closed every ping has been settled and none waits, exactly when no step of
the run closes the connection while a ping waits. -/
theorem pings_ended_iff (options : Http2Options) (s : List ConnectionStep) :
    (∀ before after, s = before ++ after → PingsEnded options before) ↔ Throughout step ClosesUnpinged { options } s := by
  constructor
  · intro h
    refine throughout_of_reached h fun before a hended _ hcloses => ?_
    rw [PingsEnded, run_concat] at hended
    obtain ⟨hnone, -⟩ := hended ((step_closed _ a).mpr (.inr hcloses))
    exact (step_closes_pingHandlers hcloses).symm.trans hnone
  · rintro h s after rfl hclosed
    have hnone : (run options s).pingHandlers = [] :=
      (throughout_append.mp h).1.invariant (I := Unpinged) (fun _ _ hbefore hcloses => hbefore.step hcloses) (fun _ => rfl) hclosed
    refine ⟨hnone, ?_⟩
    rintro before promise data after rfl
    refine (ping_settles (run options before) promise data after).resolve_right fun hwaits => ?_
    rw [run_append] at hnone
    rw [hnone] at hwaits
    exact List.not_mem_nil hwaits

open Http2Connection in
/-- A ping is waiting when the connection is closed: its promise is never settled, and its listener stays. -/
theorem close_strands_ping :
    ¬ PingsEnded {} [.ping 0 7, .close] ∧ (run {} [.ping 0 7, .close]).pingHandlers = [⟨0, 7⟩] ∧
      (run {} [.ping 0 7, .close]).closed = true := by
  have hclosed : (run {} [.ping 0 7, .close]).closed = true := by decide +kernel
  have hwaits : (run {} [.ping 0 7, .close]).pingHandlers = [⟨0, 7⟩] := by decide +kernel
  refine ⟨fun hended => ?_, hwaits, hclosed⟩
  exact absurd (hwaits.symm.trans (hended hclosed).1) (List.cons_ne_nil _ _)

end BrowsercoreHttp2
