import BrowsercoreHttp2.InternalEmitter.Execution
import BrowsercoreHttp2.Library.Runs
import Mathlib.Data.List.Infix

/-!
# Delivery

An emit goes through the entries it found, whatever its listeners do to the emitter. A `once` registration
is gone when its listener runs, so no emit that starts later finds it. But an emit around the one that called
it has it in its snapshot since before, and calls it again.
-/

namespace BrowsercoreHttp2.Execution

variable {α : Type}

/-- The records an emit has called, in order. -/
def calls (x : Execution α) (emit : Nat) : List StoredListener :=
  (x.invocations.filter fun invocation => invocation.emit = emit).map Invocation.record

/-! ### Properties of delivery -/

/-- No `once` registration has been called twice. -/
def CallsOnce (x : Execution α) : Prop :=
  ∀ record, record.once.isSome → (x.invocations.filter fun invocation => invocation.record = record).length ≤ 1

/-- An emit goes through the entries it found, which stand in the order of their registration. It has called
all of them when it returns, and it returns whether there were any. -/
def Delivers (x : Execution α) (emit : Nat) (entries : List StoredListener) : Prop :=
  (entries.Pairwise fun entry later => entry.id < later.id) ∧ x.calls emit <+: entries ∧
    ∀ result, (emit, result) ∈ x.returned → x.calls emit = entries ∧ result = !entries.isEmpty

/-- The innermost emit does not come to a `once` registration that an emit inside it has called. -/
def NotOvertaken (x : Execution α) : Prop :=
  ∀ dispatch outer record pending, x.running = dispatch :: outer → dispatch.pending = record :: pending → record.once.isSome →
    ∀ invocation ∈ x.invocations, invocation.record = record → dispatch.emit ∉ invocation.within

variable {x : Execution α}

/-! ### Calls of `once` registrations -/

/-- One more call is a second one when the record has been called before. -/
theorem callsOnce_call_iff (honce : x.CallsOnce) {emit : Nat} {args : List α} {record : StoredListener}
    {pending : List StoredListener} {outer : List (Dispatch α)} :
    (x.call emit args record pending outer).CallsOnce ↔
      (record.once.isSome → ∀ invocation ∈ x.invocations, invocation.record ≠ record) := by
  have hfilter : ∀ other, ((x.call emit args record pending outer).invocations.filter fun invocation => invocation.record = other).length =
      (x.invocations.filter fun invocation => invocation.record = other).length + if record = other then 1 else 0 := by
    intro other
    rw [show (x.call emit args record pending outer).invocations =
        x.invocations ++ [{ emit, record, args, within := outer.map Dispatch.emit }] from rfl, List.filter_append, List.length_append]
    by_cases heq : record = other
    · rw [List.filter_cons_of_pos (by simpa using heq), if_pos heq, List.filter_nil, List.length_singleton]
    · rw [List.filter_cons_of_neg (by simpa using heq), if_neg heq, List.filter_nil, List.length_nil]
  refine Iff.intro (fun hcall hrecord invocation hinvocation heq => ?_) fun hfirst other hother => ?_
  · have hone := hcall record hrecord
    have hmem : invocation ∈ x.invocations.filter fun invocation => invocation.record = record :=
      List.mem_filter.mpr ⟨hinvocation, decide_eq_true heq⟩
    have hpos := List.length_pos_of_mem hmem
    rw [hfilter, if_pos rfl] at hone
    omega
  · rw [hfilter]
    split
    · rename_i heq
      have hnone : (x.invocations.filter fun invocation => invocation.record = other) = [] := by
        refine List.filter_eq_nil_iff.mpr fun invocation hinvocation hsame => ?_
        exact hfirst (heq ▸ hother) invocation hinvocation ((of_decide_eq_true hsame).trans heq.symm)
      rw [hnone, List.length_nil]
    · exact honce other hother

/-- The loop calls a `once` registration a second time exactly when an emit inside its own got there
first: an emit that found the registration called would not have it in its snapshot. -/
theorem Sound.callsOnce_next_iff (h : x.Sound) (honce : x.CallsOnce) : x.next.CallsOnce ↔ x.NotOvertaken := by
  obtain ⟨hidle, hnext⟩ | ⟨emit, args, outer, hrunning, hnext⟩ | ⟨emit, args, record, pending, outer, hrunning, hnext⟩ :=
    x.next_cases
  · rw [hnext]
    refine iff_of_true honce fun dispatch outer record pending hrunning => ?_
    rw [hidle] at hrunning
    exact absurd hrunning.symm (List.cons_ne_nil dispatch outer)
  · rw [hnext]
    refine iff_of_true honce fun dispatch outer' record pending hrunning' hpending => ?_
    rw [hrunning] at hrunning'
    rw [← (List.cons.inj hrunning').1] at hpending
    exact absurd hpending.symm (List.cons_ne_nil record pending)
  · have hown : (⟨emit, args, record :: pending⟩ : Dispatch α) ∈ x.running := by rw [hrunning]; exact List.mem_cons_self
    rw [hnext, callsOnce_call_iff honce]
    refine Iff.intro (fun hfirst dispatch outer' record' pending' hrunning' hpending hrecord invocation hinvocation heq => ?_)
      fun hfree hrecord invocation hinvocation heq => ?_
    · rw [hrunning] at hrunning'
      rw [← (List.cons.inj hrunning').1] at hpending
      have hsame : record = record' := (List.cons.inj hpending).1
      exact absurd (heq.trans hsame.symm) (hfirst (hsame ▸ hrecord) invocation hinvocation)
    · have hinside : emit ∈ invocation.within := by
        refine h.nested _ hown invocation hinvocation (heq ▸ hrecord) ?_
        rw [heq]
        exact List.mem_cons_self
      exact hfree _ outer record pending hrunning rfl hrecord invocation hinvocation heq hinside

theorem Sound.notOvertaken_start (h : x.Sound) (event : String) (args : List α) : (x.start event args).NotOvertaken := by
  intro dispatch outer record pending hrunning hpending hrecord invocation hinvocation heq
  rw [← (List.cons.inj hrunning).1] at hpending
  have hlisteners : x.emitter.listeners event = record :: pending := hpending
  have habsent := h.unregistered invocation hinvocation (heq ▸ hrecord) event
  rw [heq, hlisteners] at habsent
  exact absurd List.mem_cons_self habsent

/-- The condition on a step: the loop that goes on has not been overtaken. -/
def Uncontested (x : Execution α) : Action α → Prop
  | .listenerReturns => x.NotOvertaken
  | _ => True

theorem Sound.callsOnce_step_iff (h : x.Sound) (honce : x.CallsOnce) (action : Action α) :
    (x.step action).CallsOnce ↔ x.Uncontested action := by
  cases action with
  | listenerReturns => exact h.callsOnce_next_iff honce
  | emit event args =>
      refine iff_of_true ?_ trivial
      by_cases hentries : x.emitter.listeners event = []
      · rw [Execution.step, emit_of_no_listeners hentries]
        exact honce
      · rw [Execution.step, emit_of_listeners hentries]
        exact ((h.start event args).callsOnce_next_iff honce).mpr (h.notOvertaken_start event args)
  | listenerThrows =>
      obtain ⟨running, hthrown⟩ := x.throwListener_kept
      refine iff_of_true ?_ trivial
      rw [Execution.step, hthrown]
      exact honce
  | on event listener => exact iff_of_true honce trivial
  | once event listener => exact iff_of_true honce trivial
  | off event listener => exact iff_of_true honce trivial
  | removeAllListeners event => exact iff_of_true honce trivial

theorem invocations_prefix_next (x : Execution α) : x.invocations <+: x.next.invocations := by
  obtain ⟨_, hnext⟩ | ⟨emit, args, outer, _, hnext⟩ | ⟨emit, args, record, pending, outer, _, hnext⟩ := x.next_cases
  · rw [hnext]
  · rw [hnext]
  · rw [hnext]
    exact List.prefix_append _ _

theorem invocations_prefix_step (x : Execution α) (action : Action α) : x.invocations <+: (x.step action).invocations := by
  cases action with
  | listenerReturns => exact x.invocations_prefix_next
  | emit event args =>
      by_cases hentries : x.emitter.listeners event = []
      · rw [step, emit_of_no_listeners hentries]
      · rw [step, emit_of_listeners hentries]
        exact (x.start event args).invocations_prefix_next
  | listenerThrows =>
      obtain ⟨running, hthrown⟩ := x.throwListener_kept
      rw [step, hthrown]
  | on event listener => exact List.prefix_rfl
  | once event listener => exact List.prefix_rfl
  | off event listener => exact List.prefix_rfl
  | removeAllListeners event => exact List.prefix_rfl

theorem CallsOnce.of_prefix {y : Execution α} (honce : y.CallsOnce) (h : x.invocations <+: y.invocations) : x.CallsOnce := by
  intro record hrecord
  have hsublist := h.sublist.filter fun invocation : Invocation α => decide (invocation.record = record)
  exact Nat.le_trans hsublist.length_le (honce record hrecord)

theorem invocations_prefix_foldl (x : Execution α) (actions : List (Action α)) :
    x.invocations <+: (actions.foldl step x).invocations := by
  induction actions generalizing x with
  | nil => exact List.prefix_rfl
  | cons action actions ih => exact (x.invocations_prefix_step action).trans (ih (x.step action))

theorem Sound.callsOnce_foldl_iff (h : x.Sound) (honce : x.CallsOnce) (actions : List (Action α)) :
    (actions.foldl Execution.step x).CallsOnce ↔ Throughout Execution.step Uncontested x actions := by
  induction actions generalizing x with
  | nil => exact iff_of_true honce trivial
  | cons action actions ih =>
      rw [List.foldl_cons, Throughout, ← h.callsOnce_step_iff honce action]
      refine Iff.intro (fun hrun => ?_) fun hmet => (ih (h.step action) hmet.1).mpr hmet.2
      have hstep := hrun.of_prefix ((x.step action).invocations_prefix_foldl actions)
      exact ⟨hstep, (ih (h.step action) hstep).mp hrun⟩

/-! ### Snapshots -/

/-- An emit on its way through its snapshot: what it has called and what is left, or, when it runs no more,
what it called. -/
def Progresses (x : Execution α) (emit : Nat) (entries : List StoredListener) : Prop :=
  (∃ dispatch ∈ x.running, dispatch.emit = emit ∧ entries ≠ [] ∧ x.calls emit ++ dispatch.pending = entries) ∨
    emit ∉ x.running.map Dispatch.emit ∧ x.calls emit <+: entries ∧
      ∀ result, (emit, result) ∈ x.returned → x.calls emit = entries ∧ result = !entries.isEmpty

theorem calls_call (x : Execution α) (emit : Nat) (args : List α) (record : StoredListener) (pending : List StoredListener)
    (outer : List (Dispatch α)) (other : Nat) :
    (x.call emit args record pending outer).calls other = x.calls other ++ if emit = other then [record] else [] := by
  rw [calls, calls, show (x.call emit args record pending outer).invocations =
    x.invocations ++ [{ emit, record, args, within := outer.map Dispatch.emit }] from rfl, List.filter_append, List.map_append]
  by_cases heq : emit = other
  · rw [List.filter_cons_of_pos (by simpa using heq), if_pos heq, List.filter_nil, List.map_singleton]
  · rw [List.filter_cons_of_neg (by simpa using heq), if_neg heq, List.filter_nil, List.map_nil]

theorem Sound.progresses_next (h : x.Sound) {emit : Nat} {entries : List StoredListener} (hprogress : x.Progresses emit entries) :
    x.next.Progresses emit entries := by
  obtain ⟨_, hnext⟩ | ⟨own, args, outer, hrunning, hnext⟩ | ⟨own, args, record, pending, outer, hrunning, hnext⟩ := x.next_cases
  · rw [hnext]
    exact hprogress
  · -- The emit that returns has called all its entries, and the others stay where they are.
    have hnodup := h.runningNodup
    rw [hrunning, List.map_cons, List.nodup_cons] at hnodup
    rw [Progresses, hrunning, List.map_cons, List.mem_cons, not_or] at hprogress
    rw [hnext]
    obtain ⟨dispatch, hdispatch, hemit, hentries, hcalls⟩ | ⟨⟨hown, houter⟩, hsofar, hreturned⟩ := hprogress
    · obtain heq | hmem := List.mem_cons.mp hdispatch
      · rw [heq] at hemit hcalls
        have hcalled : x.calls emit = entries := (List.append_nil _).symm.trans hcalls
        refine .inr ⟨hemit ▸ hnodup.1, hcalled ▸ List.prefix_rfl, fun result hresult => ⟨hcalled, ?_⟩⟩
        obtain hold | hnew := List.mem_append.mp hresult
        · have hnot := (h.returnedFresh _ hold).2
          rw [hrunning, List.map_cons, List.mem_cons, not_or] at hnot
          exact absurd hemit.symm hnot.1
        · have hresult : result = true := congrArg Prod.snd (List.mem_singleton.mp hnew)
          rw [hresult, List.isEmpty_eq_false_iff.mpr hentries, Bool.not_false]
      · exact .inl ⟨dispatch, hmem, hemit, hentries, hcalls⟩
    · refine .inr ⟨houter, hsofar, fun result hresult => ?_⟩
      obtain hold | hnew := List.mem_append.mp hresult
      · exact hreturned result hold
      · exact absurd (Prod.ext_iff.mp (List.mem_singleton.mp hnew)).1 hown
  · have hnodup := h.runningNodup
    rw [hrunning, List.map_cons, List.nodup_cons] at hnodup
    rw [Progresses, hrunning] at hprogress
    rw [hnext]
    obtain ⟨dispatch, hdispatch, hemit, hentries, hcalls⟩ | ⟨hstopped, hsofar, hreturned⟩ := hprogress
    · obtain heq | hmem := List.mem_cons.mp hdispatch
      · -- The entry goes from what is left to what was called.
        rw [heq] at hemit hcalls
        refine .inl ⟨⟨own, args, pending⟩, List.mem_cons_self, hemit, hentries, ?_⟩
        rw [calls_call, if_pos hemit, List.append_assoc, List.singleton_append]
        exact hcalls
      · have hne : own ≠ emit := fun heq =>
          hnodup.1 (List.mem_map.mpr ⟨dispatch, hmem, hemit.trans heq.symm⟩)
        refine .inl ⟨dispatch, List.mem_cons_of_mem _ hmem, hemit, hentries, ?_⟩
        rw [calls_call, if_neg hne, List.append_nil]
        exact hcalls
    · have hne : own ≠ emit := fun heq => hstopped (heq ▸ List.mem_cons_self)
      have hsame : (x.call own args record pending outer).calls emit = x.calls emit := by
        rw [calls_call, if_neg hne, List.append_nil]
      exact .inr ⟨hstopped, hsame ▸ hsofar, hsame ▸ hreturned⟩

theorem Sound.progresses_throwListener (h : x.Sound) {emit : Nat} {entries : List StoredListener}
    (hprogress : x.Progresses emit entries) : x.throwListener.Progresses emit entries := by
  rw [Execution.throwListener]
  split
  · exact hprogress
  · rename_i own outer hrunning
    have hnodup := h.runningNodup
    rw [hrunning, List.map_cons, List.nodup_cons] at hnodup
    obtain ⟨dispatch, hdispatch, hemit, hentries, hcalls⟩ | ⟨hstopped, hsofar, hreturned⟩ := hprogress
    · rw [hrunning] at hdispatch
      obtain heq | hmem := List.mem_cons.mp hdispatch
      · -- The rest of the snapshot is not called, and the emit does not return.
        refine .inr ⟨hemit ▸ heq ▸ hnodup.1, hcalls ▸ List.prefix_append _ _, fun result hresult => ?_⟩
        have hnot := (h.returnedFresh _ hresult).2
        rw [hrunning, List.map_cons, List.mem_cons, not_or] at hnot
        exact absurd (heq ▸ hemit.symm) hnot.1
      · exact .inl ⟨dispatch, hmem, hemit, hentries, hcalls⟩
    · rw [hrunning, List.map_cons, List.mem_cons, not_or] at hstopped
      exact .inr ⟨hstopped.2, hsofar, hreturned⟩

theorem Sound.progresses_emit (h : x.Sound) {emit : Nat} (hlt : emit < x.nextEmit) {entries : List StoredListener}
    (hprogress : x.Progresses emit entries) (event : String) (args : List α) : (x.emit event args).Progresses emit entries := by
  have hne : emit ≠ x.nextEmit := Nat.ne_of_lt hlt
  by_cases hfound : x.emitter.listeners event = []
  · rw [emit_of_no_listeners hfound]
    refine hprogress.imp_right fun ⟨hstopped, hsofar, hreturned⟩ => ⟨hstopped, hsofar, fun result hresult => ?_⟩
    obtain hold | hnew := List.mem_append.mp hresult
    · exact hreturned result hold
    · exact absurd (Prod.ext_iff.mp (List.mem_singleton.mp hnew)).1 hne
  · rw [emit_of_listeners hfound]
    refine (h.start event args).progresses_next ?_
    obtain ⟨dispatch, hdispatch, hrest⟩ | ⟨hstopped, hrest⟩ := hprogress
    · exact .inl ⟨dispatch, List.mem_cons_of_mem _ hdispatch, hrest⟩
    · refine .inr ⟨fun hmem => ?_, hrest⟩
      exact (List.mem_cons.mp hmem).elim hne hstopped

theorem Sound.progresses_step (h : x.Sound) {emit : Nat} (hlt : emit < x.nextEmit) {entries : List StoredListener}
    (hprogress : x.Progresses emit entries) (action : Action α) : (x.step action).Progresses emit entries := by
  cases action with
  | listenerReturns => exact h.progresses_next hprogress
  | listenerThrows => exact h.progresses_throwListener hprogress
  | emit event args => exact h.progresses_emit hlt hprogress event args
  | on event listener => exact hprogress
  | once event listener => exact hprogress
  | off event listener => exact hprogress
  | removeAllListeners event => exact hprogress

theorem nextEmit_next (x : Execution α) : x.next.nextEmit = x.nextEmit := by
  obtain ⟨_, hnext⟩ | ⟨_, _, _, _, hnext⟩ | ⟨_, _, _, _, _, _, hnext⟩ := x.next_cases
  · rw [hnext]
  · rw [hnext]
  · rw [hnext]
    rfl

theorem nextEmit_emit (x : Execution α) (event : String) (args : List α) : (x.emit event args).nextEmit = x.nextEmit + 1 := by
  by_cases hentries : x.emitter.listeners event = []
  · rw [emit_of_no_listeners hentries]
  · rw [emit_of_listeners hentries, nextEmit_next]
    rfl

theorem nextEmit_le_step (x : Execution α) (action : Action α) : x.nextEmit ≤ (x.step action).nextEmit := by
  cases action with
  | listenerReturns => exact Nat.le_of_eq x.nextEmit_next.symm
  | listenerThrows =>
      obtain ⟨running, hthrown⟩ := x.throwListener_kept
      exact Nat.le_of_eq (congrArg nextEmit hthrown).symm
  | emit event args =>
      rw [step, nextEmit_emit]
      exact Nat.le_succ _
  | on event listener => exact Nat.le_refl _
  | once event listener => exact Nat.le_refl _
  | off event listener => exact Nat.le_refl _
  | removeAllListeners event => exact Nat.le_refl _

theorem Sound.progresses_foldl (h : x.Sound) {emit : Nat} (hlt : emit < x.nextEmit) {entries : List StoredListener}
    (hprogress : x.Progresses emit entries) (actions : List (Action α)) :
    (actions.foldl Execution.step x).Progresses emit entries := by
  induction actions generalizing x with
  | nil => exact hprogress
  | cons action actions ih =>
      exact ih (h.step action) (Nat.lt_of_lt_of_le hlt (x.nextEmit_le_step action)) (h.progresses_step hlt hprogress action)

theorem Sound.emit_progresses (h : x.Sound) (event : String) (args : List α) :
    (x.emit event args).Progresses x.nextEmit (x.emitter.listeners event) := by
  have hcalls : x.calls x.nextEmit = [] := by
    rw [calls, List.map_eq_nil_iff, List.filter_eq_nil_iff]
    intro invocation hinvocation heq
    exact Nat.ne_of_lt (h.invocationsFresh invocation hinvocation) (of_decide_eq_true heq)
  by_cases hentries : x.emitter.listeners event = []
  · rw [emit_of_no_listeners hentries, hentries]
    refine .inr ⟨h.nextEmit_not_running, hcalls ▸ List.prefix_rfl, fun result hresult => ⟨hcalls, ?_⟩⟩
    obtain hold | hnew := List.mem_append.mp hresult
    · exact absurd (h.returnedFresh _ hold).1 (Nat.lt_irrefl _)
    · exact (Prod.ext_iff.mp (List.mem_singleton.mp hnew)).2
  · rw [emit_of_listeners hentries]
    refine (h.start event args).progresses_next (.inl ⟨_, List.mem_cons_self, rfl, hentries, ?_⟩)
    exact congrArg (· ++ x.emitter.listeners event) hcalls

theorem Sound.delivers (h : x.Sound) {emit : Nat} {entries : List StoredListener}
    (hascending : entries.Pairwise fun entry later => entry.id < later.id) (hprogress : x.Progresses emit entries) :
    x.Delivers emit entries := by
  refine ⟨hascending, ?_⟩
  obtain ⟨dispatch, hdispatch, hemit, _, hcalls⟩ | ⟨_, hsofar, hreturned⟩ := hprogress
  · refine ⟨hcalls ▸ List.prefix_append _ _, fun result hresult => ?_⟩
    exact absurd (hemit ▸ List.mem_map_of_mem hdispatch) (h.returnedFresh _ hresult).2
  · exact ⟨hsofar, hreturned⟩

/-- Every emit of a run goes through what was registered when it started. -/
theorem delivers_run (before : List (Action α)) (event : String) (args : List α) (after : List (Action α)) :
    (run (before ++ .emit event args :: after)).Delivers (run before).nextEmit ((run before).emitter.listeners event) := by
  have hbefore : (run before).Sound := sound_new.foldl before
  have hstarted : ((run before).emit event args).Sound := hbefore.emit event args
  obtain ⟨set, horder⟩ := hbefore.wellFormed.listeners_inOrder event
  have hlt : (run before).nextEmit < ((run before).emit event args).nextEmit := by
    rw [nextEmit_emit]
    exact Nat.lt_succ_self _
  have hrun : run (before ++ .emit event args :: after) = after.foldl Execution.step ((run before).emit event args) := by
    rw [run, List.foldl_append, List.foldl_cons]
    rfl
  rw [hrun]
  exact (hstarted.foldl after).delivers horder.ascending
    (hstarted.progresses_foldl hlt (hbefore.emit_progresses event args) after)

/-- In every run, each emit calls what was registered when it started, and no `once` registration is called
twice exactly when no emit comes to one that an emit inside it has called. -/
theorem emits_deliver_iff (actions : List (Action α)) :
    ((run actions).CallsOnce ∧ ∀ before event args after, actions = before ++ .emit event args :: after →
        (run actions).Delivers (run before).nextEmit ((run before).emitter.listeners event)) ↔
      Throughout step Uncontested {} actions := by
  have hnew : ({} : Execution α).CallsOnce := fun _ _ => Nat.zero_le 1
  refine Iff.trans (and_iff_left fun before event args after hactions => ?_) (sound_new.callsOnce_foldl_iff hnew actions)
  rw [hactions]
  exact delivers_run before event args after

/-- A listener that emits its own event again comes before a `once` listener: both emits call that one. -/
theorem once_called_twice :
    let actions : List (Action Nat) :=
      [.on "settingsAck" 0, .once "settingsAck" 1, .emit "settingsAck" [], .emit "settingsAck" [],
        .listenerReturns, .listenerReturns, .listenerReturns]
    (run actions).invocations.map (fun invocation => (invocation.emit, invocation.record.original)) =
        [(0, 0), (1, 0), (1, 1), (0, 1)] ∧
      ¬(run actions).CallsOnce := by
  intro actions
  refine ⟨by decide, fun honce => ?_⟩
  exact absurd (honce { id := 1, once := some 0, original := 1 } rfl) (by decide)

end BrowsercoreHttp2.Execution
