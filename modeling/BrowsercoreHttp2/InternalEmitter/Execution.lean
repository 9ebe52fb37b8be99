import BrowsercoreHttp2.InternalEmitter

/-!
# Executions of the emitter

Listeners run while `emit` goes through its snapshot, and they may use the emitter: register, remove, emit
again, throw. An execution is the emitter together with the emits that are running, innermost first. Its
actions are those of the code that runs, which is a listener of the innermost emit or, when none is running,
the code outside. When a listener returns, the loop of its emit goes on.
-/

namespace BrowsercoreHttp2

/-- A running emit: what is left of its snapshot behind the listener that runs. -/
structure Dispatch (α : Type) where
  emit : Nat
  args : List α
  pending : List StoredListener

/-- A call of a listener by an emit, and the emits around that one. -/
structure Invocation (α : Type) where
  emit : Nat
  record : StoredListener
  args : List α
  within : List Nat

structure Execution (α : Type) where
  emitter : InternalEventEmitter := {}
  running : List (Dispatch α) := []
  nextEmit : Nat := 0
  invocations : List (Invocation α) := []
  /-- The emits that have returned, with the result. -/
  returned : List (Nat × Bool) := []

inductive Action (α : Type) where
  | on (event : String) (listener : Listener)
  | once (event : String) (listener : Listener)
  | off (event : String) (listener : Listener)
  | removeAllListeners (event : Option String)
  | emit (event : String) (args : List α)
  | listenerReturns
  | listenerThrows

namespace Execution

variable {α : Type}

/-- The innermost emit calls an entry, up to the listener itself. -/
def call (x : Execution α) (emit : Nat) (args : List α) (record : StoredListener) (pending : List StoredListener)
    (outer : List (Dispatch α)) : Execution α :=
  { x with
    emitter := x.emitter.beforeListener record
    running := ⟨emit, args, pending⟩ :: outer
    invocations := x.invocations ++ [{ emit, record, args, within := outer.map Dispatch.emit }] }

/-- The loop of the innermost emit goes on: it calls the next entry or, after the last one, returns. -/
def next (x : Execution α) : Execution α :=
  match x.running with
  | [] => x
  | ⟨emit, _, []⟩ :: outer => { x with running := outer, returned := x.returned ++ [(emit, true)] }
  | ⟨emit, args, record :: pending⟩ :: outer => x.call emit args record pending outer

/-- An emit with its snapshot, before the first call. -/
def start (x : Execution α) (event : String) (args : List α) : Execution α :=
  { x with nextEmit := x.nextEmit + 1, running := ⟨x.nextEmit, args, x.emitter.listeners event⟩ :: x.running }

def emit (x : Execution α) (event : String) (args : List α) : Execution α :=
  if x.emitter.listeners event = [] then
    { x with nextEmit := x.nextEmit + 1, returned := x.returned ++ [(x.nextEmit, false)] }
  else (x.start event args).next

/-- An exception ends the loop it comes out of. The code that called that emit may catch it or throw in turn. -/
def throwListener (x : Execution α) : Execution α :=
  match x.running with
  | [] => x
  | _ :: outer => { x with running := outer }

def step (x : Execution α) : Action α → Execution α
  | .on event listener => { x with emitter := x.emitter.on event listener }
  | .once event listener => { x with emitter := x.emitter.once event listener }
  | .off event listener => { x with emitter := x.emitter.off event listener }
  | .removeAllListeners event => { x with emitter := x.emitter.removeAllListeners event }
  | .emit event args => x.emit event args
  | .listenerReturns => x.next
  | .listenerThrows => x.throwListener

def run (actions : List (Action α)) : Execution α := actions.foldl step {}

/-! ### What holds in every execution -/

/-- Entries of a snapshot stand in the order of their registration. A `once` registration that has been
called is registered no more, and an emit that still has it in its snapshot is around the one that called
it. -/
structure Sound (x : Execution α) : Prop where
  wellFormed : x.emitter.WellFormed
  ascending : ∀ dispatch ∈ x.running, dispatch.pending.Pairwise fun entry later => entry.id < later.id
  pendingFresh : ∀ dispatch ∈ x.running, ∀ entry ∈ dispatch.pending, entry.id < x.emitter.nextId
  calledFresh : ∀ invocation ∈ x.invocations, invocation.record.id < x.emitter.nextId
  unregistered : ∀ invocation ∈ x.invocations, invocation.record.once.isSome →
    ∀ event, invocation.record ∉ x.emitter.listeners event
  nested : ∀ dispatch ∈ x.running, ∀ invocation ∈ x.invocations, invocation.record.once.isSome →
    invocation.record ∈ dispatch.pending → dispatch.emit ∈ invocation.within
  runningNodup : (x.running.map Dispatch.emit).Nodup
  runningFresh : ∀ dispatch ∈ x.running, dispatch.emit < x.nextEmit
  invocationsFresh : ∀ invocation ∈ x.invocations, invocation.emit < x.nextEmit
  returnedFresh : ∀ result ∈ x.returned, result.1 < x.nextEmit ∧ result.1 ∉ x.running.map Dispatch.emit

theorem sound_new : ({} : Execution α).Sound where
  wellFormed := InternalEventEmitter.wellFormed_new
  ascending := fun _ h => absurd h List.not_mem_nil
  pendingFresh := fun _ h => absurd h List.not_mem_nil
  calledFresh := fun _ h => absurd h List.not_mem_nil
  unregistered := fun _ h => absurd h List.not_mem_nil
  nested := fun _ h => absurd h List.not_mem_nil
  runningNodup := List.nodup_nil
  runningFresh := fun _ h => absurd h List.not_mem_nil
  invocationsFresh := fun _ h => absurd h List.not_mem_nil
  returnedFresh := fun _ h => absurd h List.not_mem_nil

variable {x : Execution α}

/-- The methods other than `emit` register new records and remove old ones. -/
theorem Sound.withEmitter (h : x.Sound) {emitter : InternalEventEmitter} (hwf : emitter.WellFormed)
    (hnext : x.emitter.nextId ≤ emitter.nextId)
    (hlisteners : ∀ event, ∀ entry ∈ emitter.listeners event, entry ∈ x.emitter.listeners event ∨ x.emitter.nextId ≤ entry.id) :
    ({ x with emitter } : Execution α).Sound where
  wellFormed := hwf
  ascending := h.ascending
  pendingFresh := fun dispatch hdispatch entry hentry =>
    Nat.lt_of_lt_of_le (h.pendingFresh dispatch hdispatch entry hentry) hnext
  calledFresh := fun invocation hinvocation => Nat.lt_of_lt_of_le (h.calledFresh invocation hinvocation) hnext
  unregistered := by
    intro invocation hinvocation honce event hentry
    obtain hold | hnew := hlisteners event _ hentry
    · exact h.unregistered invocation hinvocation honce event hold
    · exact absurd (h.calledFresh invocation hinvocation) (Nat.not_lt_of_le hnew)
  nested := h.nested
  runningNodup := h.runningNodup
  runningFresh := h.runningFresh
  invocationsFresh := h.invocationsFresh
  returnedFresh := h.returnedFresh

theorem Sound.register (h : x.Sound) (event : String) {record : SetRef → Nat → StoredListener}
    (hid : ∀ set id, (record set id).id = id) (hcaptured : ∀ set id own, (record set id).once = some own → own = set) :
    ({ x with emitter := x.emitter.register event record } : Execution α).Sound := by
  obtain ⟨hwf, hnext, hlisteners⟩ := h.wellFormed.register event hid hcaptured
  refine h.withEmitter hwf (hnext ▸ Nat.le_succ _) fun other entry hentry => ?_
  rw [hlisteners] at hentry
  split at hentry
  · rename_i hother
    rw [hother]
    refine (List.mem_append.mp hentry).imp_right fun hnew => Nat.le_of_eq ?_
    rw [List.mem_singleton.mp hnew, InternalEventEmitter.newRecord, hid]
  · exact .inl hentry

theorem Sound.off (h : x.Sound) (event : String) (listener : Listener) :
    ({ x with emitter := x.emitter.off event listener } : Execution α).Sound := by
  obtain ⟨hwf, hnext, hlisteners⟩ := h.wellFormed.off event listener
  refine h.withEmitter hwf (Nat.le_of_eq hnext.symm) fun other entry hentry => .inl ?_
  rw [hlisteners] at hentry
  split at hentry
  · rename_i hother
    rw [hother]
    exact List.mem_of_mem_eraseP hentry
  · exact hentry

theorem Sound.removeAllListeners (h : x.Sound) (event : Option String) :
    ({ x with emitter := x.emitter.removeAllListeners event } : Execution α).Sound := by
  obtain ⟨hwf, hnext, hlisteners⟩ := h.wellFormed.removeAllListeners event
  refine h.withEmitter hwf (Nat.le_of_eq hnext.symm) fun other entry hentry => .inl ?_
  rw [hlisteners] at hentry
  split at hentry
  · exact absurd hentry List.not_mem_nil
  · exact hentry

theorem emit_of_listeners {event : String} (hentries : x.emitter.listeners event ≠ []) (args : List α) :
    x.emit event args = (x.start event args).next := if_neg hentries

theorem emit_of_no_listeners {event : String} (hentries : x.emitter.listeners event = []) (args : List α) :
    x.emit event args = { x with nextEmit := x.nextEmit + 1, returned := x.returned ++ [(x.nextEmit, false)] } := if_pos hentries

theorem Sound.nextEmit_not_running (h : x.Sound) : x.nextEmit ∉ x.running.map Dispatch.emit := by
  intro hmem
  obtain ⟨dispatch, hdispatch, heq⟩ := List.mem_map.mp hmem
  have hlt := h.runningFresh dispatch hdispatch
  omega

theorem Sound.start (h : x.Sound) (event : String) (args : List α) : (x.start event args).Sound where
  wellFormed := h.wellFormed
  ascending := by
    obtain ⟨set, horder⟩ := h.wellFormed.listeners_inOrder event
    exact List.forall_mem_cons.mpr ⟨horder.ascending, h.ascending⟩
  pendingFresh := by
    obtain ⟨set, horder⟩ := h.wellFormed.listeners_inOrder event
    exact List.forall_mem_cons.mpr ⟨horder.fresh, h.pendingFresh⟩
  calledFresh := h.calledFresh
  unregistered := h.unregistered
  nested := by
    refine List.forall_mem_cons.mpr ⟨fun invocation hinvocation honce hentry => ?_, h.nested⟩
    exact absurd hentry (h.unregistered invocation hinvocation honce event)
  runningNodup := List.nodup_cons.mpr ⟨h.nextEmit_not_running, h.runningNodup⟩
  runningFresh := List.forall_mem_cons.mpr
    ⟨Nat.lt_succ_self _, fun dispatch hdispatch => Nat.lt_succ_of_lt (h.runningFresh dispatch hdispatch)⟩
  invocationsFresh := fun invocation hinvocation => Nat.lt_succ_of_lt (h.invocationsFresh invocation hinvocation)
  returnedFresh := by
    intro result hresult
    obtain ⟨hlt, hnot⟩ := h.returnedFresh result hresult
    refine ⟨Nat.lt_succ_of_lt hlt, fun hmem => ?_⟩
    obtain heq | hrunning := List.mem_cons.mp hmem
    · exact absurd hlt (heq ▸ Nat.lt_irrefl _)
    · exact hnot hrunning

/-- Emits end from the inside out. -/
theorem Sound.outer (h : x.Sound) {dispatch : Dispatch α} {outer : List (Dispatch α)} (hrunning : x.running = dispatch :: outer) :
    ({ x with running := outer } : Execution α).Sound where
  wellFormed := h.wellFormed
  ascending := fun other hother => h.ascending other (hrunning ▸ List.mem_cons_of_mem dispatch hother)
  pendingFresh := fun other hother => h.pendingFresh other (hrunning ▸ List.mem_cons_of_mem dispatch hother)
  calledFresh := h.calledFresh
  unregistered := h.unregistered
  nested := fun other hother => h.nested other (hrunning ▸ List.mem_cons_of_mem dispatch hother)
  runningNodup := by
    have hnodup := h.runningNodup
    rw [hrunning, List.map_cons] at hnodup
    exact (List.nodup_cons.mp hnodup).2
  runningFresh := fun other hother => h.runningFresh other (hrunning ▸ List.mem_cons_of_mem dispatch hother)
  invocationsFresh := h.invocationsFresh
  returnedFresh := by
    intro result hresult
    obtain ⟨hlt, hnot⟩ := h.returnedFresh result hresult
    rw [hrunning, List.map_cons, List.mem_cons, not_or] at hnot
    exact ⟨hlt, hnot.2⟩

theorem Sound.withReturned (h : x.Sound) {emit : Nat} (hlt : emit < x.nextEmit) (hnot : emit ∉ x.running.map Dispatch.emit)
    (result : Bool) : ({ x with returned := x.returned ++ [(emit, result)] } : Execution α).Sound where
  wellFormed := h.wellFormed
  ascending := h.ascending
  pendingFresh := h.pendingFresh
  calledFresh := h.calledFresh
  unregistered := h.unregistered
  nested := h.nested
  runningNodup := h.runningNodup
  runningFresh := h.runningFresh
  invocationsFresh := h.invocationsFresh
  returnedFresh := List.forall_mem_append.mpr ⟨h.returnedFresh, List.forall_mem_singleton.mpr ⟨hlt, hnot⟩⟩

theorem throwListener_kept (x : Execution α) : ∃ running, x.throwListener = { x with running } := by
  rw [throwListener]
  split
  · exact ⟨x.running, rfl⟩
  · rename_i dispatch outer hrunning
    exact ⟨outer, rfl⟩

theorem next_cases (x : Execution α) :
    (x.running = [] ∧ x.next = x) ∨
      (∃ emit args outer, x.running = ⟨emit, args, []⟩ :: outer ∧
        x.next = { x with running := outer, returned := x.returned ++ [(emit, true)] }) ∨
      ∃ emit args record pending outer, x.running = ⟨emit, args, record :: pending⟩ :: outer ∧
        x.next = x.call emit args record pending outer := by
  obtain ⟨emitter, running, nextEmit, invocations, returned⟩ := x
  cases running with
  | nil => exact .inl ⟨rfl, rfl⟩
  | cons dispatch outer =>
      obtain ⟨emit, args, pending⟩ := dispatch
      cases pending with
      | nil => exact .inr (.inl ⟨emit, args, outer, rfl, rfl⟩)
      | cons record pending => exact .inr (.inr ⟨emit, args, record, pending, outer, rfl, rfl⟩)

theorem Sound.call (h : x.Sound) {emit : Nat} {args : List α} {record : StoredListener} {pending : List StoredListener}
    {outer : List (Dispatch α)} (hrunning : x.running = ⟨emit, args, record :: pending⟩ :: outer) :
    (x.call emit args record pending outer).Sound := by
  obtain ⟨hwf, hnext, hlisteners⟩ := h.wellFormed.beforeListener record
  have hown : (⟨emit, args, record :: pending⟩ : Dispatch α) ∈ x.running := by rw [hrunning]; exact List.mem_cons_self
  have houter : ∀ dispatch ∈ outer, dispatch ∈ x.running := fun dispatch hdispatch =>
    hrunning ▸ List.mem_cons_of_mem _ hdispatch
  have hascending := List.pairwise_cons.mp (h.ascending _ hown)
  have hsubset : ∀ event, ∀ entry ∈ (x.emitter.beforeListener record).listeners event, entry ∈ x.emitter.listeners event := by
    intro event entry hentry
    rw [hlisteners] at hentry
    split at hentry
    · exact List.mem_of_mem_filter hentry
    · exact hentry
  have hemits : x.running.map Dispatch.emit = (⟨emit, args, pending⟩ :: outer : List (Dispatch α)).map Dispatch.emit := by
    rw [hrunning, List.map_cons, List.map_cons]
  refine
    { wellFormed := hwf
      ascending := List.forall_mem_cons.mpr ⟨hascending.2, fun dispatch hdispatch => h.ascending dispatch (houter dispatch hdispatch)⟩
      pendingFresh := ?_
      calledFresh := ?_
      unregistered := List.forall_mem_append.mpr ⟨fun invocation hinvocation honce event hentry => ?_,
        List.forall_mem_singleton.mpr fun honce event hentry => ?_⟩
      nested := List.forall_mem_cons.mpr ⟨List.forall_mem_append.mpr ⟨fun invocation hinvocation honce hentry => ?_,
          List.forall_mem_singleton.mpr fun _ hentry => ?_⟩,
        fun dispatch hdispatch => List.forall_mem_append.mpr ⟨fun invocation hinvocation honce hentry => ?_,
          List.forall_mem_singleton.mpr fun _ _ => ?_⟩⟩
      runningNodup := hemits ▸ h.runningNodup
      runningFresh := List.forall_mem_cons.mpr
        ⟨h.runningFresh ⟨emit, args, record :: pending⟩ hown, fun dispatch hdispatch => h.runningFresh dispatch (houter dispatch hdispatch)⟩
      invocationsFresh := List.forall_mem_append.mpr ⟨h.invocationsFresh, List.forall_mem_singleton.mpr (h.runningFresh _ hown)⟩
      returnedFresh := fun result hresult => hemits ▸ h.returnedFresh result hresult }
  · intro dispatch hdispatch entry hentry
    obtain heq | hmem := List.mem_cons.mp hdispatch
    · rw [heq] at hentry
      exact hnext ▸ h.pendingFresh _ hown entry (List.mem_cons_of_mem record hentry)
    · exact hnext ▸ h.pendingFresh dispatch (houter dispatch hmem) entry hentry
  · refine List.forall_mem_append.mpr ⟨fun invocation hinvocation => hnext ▸ h.calledFresh invocation hinvocation,
      List.forall_mem_singleton.mpr ?_⟩
    exact hnext ▸ h.pendingFresh _ hown record List.mem_cons_self
  · exact h.unregistered invocation hinvocation honce event (hsubset event _ hentry)
  · -- The wrapper has just taken the record out.
    rw [show (x.call emit args record pending outer).emitter = x.emitter.beforeListener record from rfl, hlisteners,
      if_pos honce] at hentry
    exact absurd rfl (of_decide_eq_true (List.mem_filter.mp hentry).2)
  · exact h.nested _ hown invocation hinvocation honce (List.mem_cons_of_mem record hentry)
  · exact absurd (hascending.1 record hentry) (Nat.lt_irrefl _)
  · exact h.nested dispatch (houter dispatch hdispatch) invocation hinvocation honce hentry
  · exact List.mem_map_of_mem hdispatch

theorem Sound.next (h : x.Sound) : x.next.Sound := by
  obtain ⟨_, hnext⟩ | ⟨emit, args, outer, hrunning, hnext⟩ | ⟨emit, args, record, pending, outer, hrunning, hnext⟩ := x.next_cases
  · rw [hnext]
    exact h
  · have hnodup := h.runningNodup
    rw [hrunning, List.map_cons, List.nodup_cons] at hnodup
    have hlt := h.runningFresh ⟨emit, args, []⟩ (hrunning ▸ List.mem_cons_self)
    rw [hnext]
    exact (h.outer hrunning).withReturned hlt hnodup.1 true
  · rw [hnext]
    exact h.call hrunning

theorem Sound.emit (h : x.Sound) (event : String) (args : List α) : (x.emit event args).Sound := by
  by_cases hentries : x.emitter.listeners event = []
  · rw [emit_of_no_listeners hentries]
    have hcounted : ({ x with nextEmit := x.nextEmit + 1 } : Execution α).Sound := (h.start event args).outer rfl
    exact hcounted.withReturned (Nat.lt_succ_self x.nextEmit) h.nextEmit_not_running false
  · rw [emit_of_listeners hentries]
    exact (h.start event args).next

theorem Sound.throwListener (h : x.Sound) : x.throwListener.Sound := by
  rw [Execution.throwListener]
  split
  · exact h
  · rename_i dispatch outer hrunning
    exact h.outer hrunning

theorem Sound.step (h : x.Sound) (action : Action α) : (x.step action).Sound := by
  cases action with
  | on event listener => exact h.register event (fun _ _ => rfl) fun _ _ own hown => absurd hown (Option.some_ne_none own).symm
  | once event listener => exact h.register event (fun _ _ => rfl) fun _ _ own hown => (Option.some.inj hown).symm
  | off event listener => exact h.off event listener
  | removeAllListeners event => exact h.removeAllListeners event
  | emit event args => exact h.emit event args
  | listenerReturns => exact h.next
  | listenerThrows => exact h.throwListener

theorem Sound.foldl (h : x.Sound) (actions : List (Action α)) : (actions.foldl Execution.step x).Sound := by
  induction actions generalizing x with
  | nil => exact h
  | cons action actions ih => exact ih (h.step action)

end Execution

end BrowsercoreHttp2
