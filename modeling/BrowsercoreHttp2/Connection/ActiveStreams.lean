import BrowsercoreHttp2.Connection.Steps
import BrowsercoreHttp2.Stream.Departures

/-!
# The active streams

`activeClientStreams` follows the manager by events: a request puts its stream in, and `streamClosed` takes it
out. Since the manager announces every stream it drops, an active stream is always one the manager still has,
and its id is one that was handed out.
-/

namespace BrowsercoreHttp2

namespace Http2Connection

/-- The active streams are streams of the manager, under ids that were handed out. -/
structure Accounted (c : Http2Connection) : Prop where
  ids : ∀ id ∈ c.activeClientStreams.entries, id < c.manager.nextStreamId
  kept : ∀ id ∈ c.activeClientStreams.entries, id ∈ c.manager.streams.keys

variable {c c' : Http2Connection}

/-! ### Hearing that a stream has closed -/

theorem onStreamClosed_active (c : Http2Connection) (streamId : StreamId) : streamId ∉ (c.onStreamClosed streamId).activeClientStreams.entries := by
  rw [onStreamClosed]
  split
  · intro hmem
    have hdeleted := (Hears.releaseSlot { c with activeClientStreams := c.activeClientStreams.delete streamId }).active.subset hmem
    exact (Table.mem_delete.mp hdeleted).2 rfl
  · rename_i habsent
    intro hmem
    have hget : c.activeClientStreams.get streamId = some streamId := Table.get_of_mem hmem
    exact habsent (by rw [Table.contains, hget, Option.isSome_some])

theorem foldl_onEffect_active (c : Http2Connection) {effects : List Effect} {streamId : StreamId}
    (h : .emitEvent (.streamClosed streamId) ∈ effects) : streamId ∉ (effects.foldl onEffect c).activeClientStreams.entries := by
  induction effects generalizing c with
  | nil => exact absurd h List.not_mem_nil
  | cons effect effects ih =>
      rw [List.foldl_cons]
      rcases List.mem_cons.mp h with rfl | hrest
      · intro hmem
        have hheard := (Hears.foldl_onEffect _ effects).active.subset hmem
        exact onStreamClosed_active (c.perform _) streamId hheard
      · exact ih _ hrest

theorem manage_active {op : ManagerOp} {streamId : StreamId} (h : .emitEvent (.streamClosed streamId) ∈ c.manager.newEffects op) :
    streamId ∉ (c.manage op).activeClientStreams.entries :=
  foldl_onEffect_active _ h

/-! ### The invariant -/

theorem Accounted.shrink (h : c.Accounted) (hactive : c'.activeClientStreams.entries.Sublist c.activeClientStreams.entries)
    (hmanager : c'.manager = c.manager) : c'.Accounted where
  ids id hid := by
    rw [hmanager]
    exact h.ids id (hactive.subset hid)
  kept id hid := by
    rw [hmanager]
    exact h.kept id (hactive.subset hid)

theorem Accounted.same (h : c.Accounted) (hactive : c'.activeClientStreams = c.activeClientStreams) (hmanager : c'.manager = c.manager) :
    c'.Accounted :=
  h.shrink (hactive ▸ .refl _) hmanager

theorem Accounted.manage (h : c.Accounted) (op : ManagerOp) : (c.manage op).Accounted where
  ids id hid := by
    have hnext : c.manager.nextStreamId ≤ (c.manager.step op).nextStreamId := Manager.steps_nextStreamId_le c.manager [op]
    have hactive := (c.managed_hears (c.manager.step op)).active.subset hid
    rw [Http2Connection.manage, managed_manager]
    exact (h.ids id hactive).trans_le hnext
  kept id hid := by
    have hactive := (c.managed_hears (c.manager.step op)).active.subset hid
    rw [Http2Connection.manage, managed_manager]
    exact (c.manager.step_keys op id (h.kept id hactive)).resolve_right fun hclosed => manage_active hclosed hid

theorem Accounted.of_empty (h : c.activeClientStreams = .empty) : c.Accounted := by
  constructor <;> exact fun id hid => absurd (h ▸ hid) List.not_mem_nil

theorem Accounted.acquireSlot (h : c.Accounted) (call : RequestCall) : (c.acquireSlot call).Accounted := by
  rw [Http2Connection.acquireSlot]
  split <;> exact h.same rfl rfl

theorem Accounted.openRequestStream (h : c.Accounted) : c.openRequestStream.Accounted := by
  rw [openRequestStream_eq]
  have hkeys : ∀ id, id = c.manager.nextStreamId ∨ id ∈ c.manager.streams.keys → id ∈ c.manager.openStream.1.streams.keys := by
    intro id hid
    rw [show c.manager.openStream.1.streams = c.manager.streams.set c.manager.newClientStream from rfl, Table.keys_set]
    split
    · rename_i hmem
      exact hid.elim (fun h => h ▸ hmem) fun h => h
    · exact hid.elim (fun h => h ▸ List.mem_append_right _ List.mem_cons_self) fun h => List.mem_append_left _ h
  constructor
  · intro id hid
    rcases Table.mem_set hid with rfl | ⟨hold, -⟩
    · exact Nat.lt_add_of_pos_right (by decide)
    · exact (h.ids id hold).trans (Nat.lt_add_of_pos_right (by decide))
  · intro id hid
    rcases Table.mem_set hid with rfl | ⟨hold, -⟩
    · exact hkeys _ (.inl rfl)
    · exact hkeys id (.inr (h.kept id hold))

theorem Accounted.executeRequest (h : c.Accounted) (streamId : StreamId) (call : RequestCall) :
    (c.executeRequest streamId call).Accounted := by
  have hhears := (Hears.delete c streamId).trans (.releaseSlot _)
  apply executeRequest_induction c streamId call
  · exact fun _ => h.shrink hhears.active hhears.manager
  · exact fun _ => h.manage _
  · exact fun c' effect _ hbefore => hbefore.same rfl rfl
  · exact fun c' data hbefore => hbefore.manage _

theorem Accounted.moves {s : ConnectionStep} (h : c.Accounted) (hmoves : Moves c s c') : c'.Accounted := by
  cases hmoves with
  | aside haside => exact h.same haside.active haside.manager
  | requested call hopen => exact h.acquireSlot call
  | woke call hcall =>
      have hwoken : ({ c with woken := c.woken.erase call } : Http2Connection).Accounted := h.same rfl rfl
      exact hwoken.acquireSlot call
  | resumed call hcall =>
      have hgranted : ({ c with granted := c.granted.erase call } : Http2Connection).Accounted := h.same rfl rfl
      rw [resume, if_pos hcall]
      exact hgranted.openRequestStream.executeRequest _ call
  | leaving lastStreamId errorCode debugData => exact h.same rfl rfl
  | tornDown hopen htorn => exact .of_empty htorn.active
  | received frame hreading haside => exact (h.manage (.dispatch frame)).same haside.active haside.manager
  | failed frame hreading hopen htorn => exact .of_empty htorn.active

theorem run_accounted (options : Http2Options) (s : List ConnectionStep) : (run options s).Accounted := by
  induction s using List.reverseRecOn with
  | nil => exact .of_empty rfl
  | append_singleton s step ih =>
      rw [run_concat]
      exact ih.moves (step_moves _ step)

end Http2Connection

end BrowsercoreHttp2
