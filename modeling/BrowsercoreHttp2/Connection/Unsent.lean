import BrowsercoreHttp2.Connection.Steps

/-!
# Requests that never reach the wire

A call that rejects before it sent HEADERS has either been turned away at once, or it has run on after
`acquireSlot`, opened its stream, and then met a closing connection or failed to encode its headers. Only
in the first case is nothing left: the stream stays in the manager's table, and after a failed encoding
the slot stays taken too.
-/

namespace BrowsercoreHttp2

/-! ### New streams are new -/

namespace Manager

/-- Client streams in the table have ids that were handed out. -/
theorem run_client_id_lt (ops : List ManagerOp) :
    ∀ st ∈ (run ops).streams.entries, st.isPushPromise = false → st.id < (run ops).nextStreamId := by
  induction ops using List.reverseRecOn with
  | nil => exact fun st hst => absurd hst List.not_mem_nil
  | append_singleton ops op ih =>
      intro st' hst' hclient
      rw [run_concat] at hst' ⊢
      have hnext : (run ops).nextStreamId ≤ ((run ops).step op).nextStreamId := by
        rw [step_nextStreamId]
        split <;> omega
      rcases step_streams hst' with ⟨st, hst, hchanges⟩ | ⟨rfl, rfl⟩ | ⟨id, hchanges⟩
      · rw [hchanges.isPushPromise_eq] at hclient
        rw [hchanges.id_eq]
        exact (ih st hst hclient).trans_le hnext
      · exact Nat.lt_add_of_pos_right (by decide)
      · rw [hchanges.isPushPromise_eq] at hclient
        exact absurd hclient (by simp [newPushStream, ManagedStream.create])

theorem streams_ne_of_opened {ops : List ManagerOp} {m : Manager} {st : ManagedStream}
    (hget : m.streams.get (run ops).nextStreamId = some st) (hclient : st.isPushPromise = false) :
    m.streams ≠ (run ops).streams := by
  intro hsame
  rw [hsame] at hget
  have hlt := run_client_id_lt ops st (Table.mem_of_get hget) hclient
  rw [Table.key_of_get hget] at hlt
  exact lt_irrefl _ hlt

end Manager

namespace Http2Connection

/-! ### What a rejected call leaves -/

/-- A step of the call itself rejects its promise, and the call has sent no HEADERS. -/
structure RejectsUnsent (c : Http2Connection) (s : ConnectionStep) (call : RequestCall) : Prop where
  own : s = .request call ∨ s = .wake call ∨ s = .resume call
  rejects : ∃ e, .reject call.promise e ∈ c.newEffects (c.step s)
  unsent : ∀ frame, .sendFrame (.headers frame) ∉ c.newEffects (c.step s)

/-- Slots and streams are as they were. -/
def LeavesNothing (c c' : Http2Connection) : Prop :=
  c'.activeClientStreams = c.activeClientStreams ∧ c'.manager.streams = c.manager.streams

variable {c : Http2Connection}

theorem acquireSlot_effects (c : Http2Connection) (call : RequestCall) : (c.acquireSlot call).effects = c.effects := by
  rw [acquireSlot]
  split <;> rfl

theorem wake_effects (c : Http2Connection) (call : RequestCall) : (c.wake call).effects = c.effects := by
  rw [wake]
  split
  · exact acquireSlot_effects _ call
  · rfl

theorem request_rejects {call : RequestCall} (h : RejectsUnsent c (.request call) call) :
    (c.closing = true ∨ c.closed = true) ∧ LeavesNothing c (c.step (.request call)) := by
  obtain ⟨e, he⟩ := h.rejects
  simp only [step, request] at he ⊢
  split at he
  · rename_i hclosing
    rw [if_pos hclosing]
    exact ⟨by simpa using hclosing, rfl, rfl⟩
  · rw [newEffects_of_eq (acquireSlot_effects c call)] at he
    exact absurd he List.not_mem_nil

/-- Running the promise executor of a request sends its HEADERS or leaves its stream in the table. -/
theorem executeRequest_leaves {st : ManagedStream} (hget : c.manager.streams.get st.id = some st) (hclient : st.isPushPromise = false)
    (call : RequestCall) :
    (∃ frame, c.effects ++ [.sendFrame (.headers frame)] <+: (c.executeRequest st.id call).effects) ∨
      ∃ st', (c.executeRequest st.id call).manager.streams.get st.id = some st' ∧ st'.isPushPromise = false := by
  have hexpected := manage_expectResponse_eq hget call.promise
  rcases c.executeRequest_cases st.id call with ⟨-, hturned⟩ | ⟨-, ⟨e, hfailed⟩ | ⟨frame, hsent | hbody⟩⟩
  · refine .inr ⟨st, ?_, hclient⟩
    have hreleased := (Hears.releaseSlot { c with activeClientStreams := c.activeClientStreams.delete st.id }).manager
    rw [hturned]
    exact (congrArg (fun m => m.streams.get st.id) hreleased).trans hget
  · refine .inr ⟨{ st with resolve := some call.promise, reject := some call.promise }, ?_, hclient⟩
    rw [hfailed, hexpected]
    exact Table.get_set_self c.manager.streams { st with resolve := some call.promise, reject := some call.promise }
  · rw [hsent, hexpected]
    exact .inl ⟨frame, List.prefix_rfl⟩
  · rw [hbody, hexpected]
    refine .inl ⟨frame, List.IsPrefix.trans ?_ (manage_effects _ _)⟩
    exact List.prefix_rfl

/-- A call that rejects after `acquireSlot` has opened a stream, and the stream stays in the table. -/
theorem resume_leaves_stream {call : RequestCall} (h : RejectsUnsent c (.resume call) call) :
    ∃ st, (c.step (.resume call)).manager.streams.get c.manager.nextStreamId = some st ∧ st.isPushPromise = false := by
  have hunsent := h.unsent
  obtain ⟨e, he⟩ := h.rejects
  simp only [step, resume] at he hunsent ⊢
  split at he
  · rename_i hcall
    rw [if_pos hcall] at hunsent ⊢
    rw [openRequestStream_eq] at hunsent ⊢
    rcases @executeRequest_leaves
      { c with
        granted := c.granted.erase call
        manager := c.manager.openStream.1
        activeClientStreams := c.activeClientStreams.set c.manager.nextStreamId }
      c.manager.newClientStream (openStream_get c.manager) rfl call with ⟨frame, hsent⟩ | hkept
    · exact absurd (mem_newEffects hsent) (hunsent frame)
    · exact hkept
  · rw [newEffects_of_eq rfl] at he
    exact absurd he List.not_mem_nil

end Http2Connection

open Http2Connection in
/-- In every run, a call of `request()` that rejects without having sent HEADERS leaves nothing behind
exactly when it was turned away at once, by a connection that was closing or closed. -/
theorem unsent_leaves_nothing_iff (options : Http2Options) (before : List ConnectionStep) (s : ConnectionStep) (call : RequestCall)
    (h : RejectsUnsent (run options before) s call) :
    LeavesNothing (run options before) ((run options before).step s) ↔
      s = .request call ∧ ((run options before).closing = true ∨ (run options before).closed = true) := by
  rcases h.own with rfl | rfl | rfl
  · obtain ⟨hclosing, hleaves⟩ := request_rejects h
    exact iff_of_true hleaves ⟨rfl, hclosing⟩
  · obtain ⟨e, he⟩ := h.rejects
    simp only [step] at he
    rw [newEffects_of_eq (wake_effects _ call)] at he
    exact absurd he List.not_mem_nil
  · obtain ⟨ops, hops⟩ := run_managed options before
    obtain ⟨st, hget, hclient⟩ := resume_leaves_stream h
    refine iff_of_false (fun hleaves => ?_) fun hcall => ?_
    · rw [hops] at hget
      exact Manager.streams_ne_of_opened hget hclient (hleaves.2.trans (congrArg Manager.streams hops))
    · exact absurd hcall.1 (by simp)

/-- A request whose path has a character outside Latin-1, and one without. -/
def kanjiCall : RequestCall := ⟨⟨"GET", "https", "a", "/字", .empty, none⟩, 0⟩

def plainCall : RequestCall := ⟨⟨"GET", "https", "a", "/", .empty, none⟩, 1⟩

/-- SETTINGS with MAX_CONCURRENT_STREAMS 1, and a request that cannot be encoded. -/
def oneSlotTaken : List ConnectionStep :=
  [.receiveFrame (.settings { flags := 0, streamId := 0, ack := false, settings := SettingsMap.empty.set 0x3 1 }), .request kanjiCall]

open Http2Connection in
/-- A call that a closed connection turns away leaves nothing behind, and one that cannot be encoded does. -/
theorem unsent_leaves_nothing_iff_closing :
    LeavesNothing (run {} [.close]) ((run {} [.close]).step (.request plainCall)) ∧
      ¬ LeavesNothing (run {} oneSlotTaken) ((run {} oneSlotTaken).step (.resume kanjiCall)) := by
  constructor
  · have hrejects : (run {} [.close]).newEffects ((run {} [.close]).step (.request plainCall)) = [.reject 1 (.http2 .connectionClosed)] := by
      decide +kernel
    refine (unsent_leaves_nothing_iff {} [.close] (.request plainCall) plainCall ⟨.inl rfl, ⟨.http2 .connectionClosed, ?_⟩, ?_⟩).mpr
      ⟨rfl, by decide +kernel⟩
    · rw [hrejects]
      exact List.mem_singleton_self _
    · simp [hrejects]
  · intro hleaves
    have hrejects : (run {} oneSlotTaken).newEffects ((run {} oneSlotTaken).step (.resume kanjiCall)) =
        [.reject 0 (.hpack (.nonLatin1 1 0x5b57))] := by
      decide +kernel
    have hcall := (unsent_leaves_nothing_iff {} oneSlotTaken (.resume kanjiCall) kanjiCall ⟨.inr (.inr rfl),
      ⟨.hpack (.nonLatin1 1 0x5b57), by rw [hrejects]; exact List.mem_singleton_self _⟩, by simp [hrejects]⟩).mp hleaves
    exact absurd hcall.1 (by simp)

open Http2Connection in
/-- A request that fails to encode keeps the only slot and its stream, and the next request waits. -/
theorem encode_failure_keeps_slot :
    (run {} oneSlotTaken).newEffects ((run {} oneSlotTaken).step (.resume kanjiCall)) =
        [.reject 0 (.hpack (.nonLatin1 1 0x5b57))] ∧
      ¬ LeavesNothing (run {} oneSlotTaken) ((run {} oneSlotTaken).step (.resume kanjiCall)) ∧
      (run {} (oneSlotTaken ++ [.resume kanjiCall, .request plainCall])).activeClientStreams.keys = [1] ∧
      (run {} (oneSlotTaken ++ [.resume kanjiCall, .request plainCall])).manager.streams.keys = [1] ∧
      (run {} (oneSlotTaken ++ [.resume kanjiCall, .request plainCall])).slotWaiters = [plainCall] := by
  refine ⟨?_, ?_, ?_, ?_, ?_⟩
  · decide +kernel
  · rw [LeavesNothing]
    decide +kernel
  · decide +kernel
  · decide +kernel
  · decide +kernel

end BrowsercoreHttp2
