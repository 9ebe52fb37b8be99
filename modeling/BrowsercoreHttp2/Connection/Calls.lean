import BrowsercoreHttp2.Connection.Slots
import BrowsercoreHttp2.Connection.Steps

/-!
# Calls on their way

Between its first check and its stream, a call of `request()` is in one of three places: it waits for a slot,
it has been woken, or it has been let through. Steps move it from one to the next, and only running on after
`acquireSlot` takes it out.
-/

namespace BrowsercoreHttp2

namespace Http2Connection

/-- The calls that have not run on after `acquireSlot` yet. -/
def pending (c : Http2Connection) : List RequestCall := c.slotWaiters ++ (c.woken ++ c.granted)

/-- No call is ready to run. -/
def Quiescent (c : Http2Connection) : Prop := c.woken = [] ∧ c.granted = []

instance (c : Http2Connection) : Decidable c.Quiescent := inferInstanceAs (Decidable (_ ∧ _))

variable {c c' : Http2Connection} {call : RequestCall}

theorem mem_pending_iff : call ∈ c.pending ↔ call ∈ c.slotWaiters ∨ call ∈ c.woken ∨ call ∈ c.granted := by
  rw [pending, List.mem_append, List.mem_append]

theorem Wakes.pending (h : Wakes c c') (hgranted : c'.granted = c.granted) (hcall : call ∈ c.pending) : call ∈ c'.pending := by
  obtain ⟨freed, hwaiters, hwoken⟩ := h
  rw [mem_pending_iff, hwaiters, List.mem_append] at hcall
  rw [mem_pending_iff, hwoken, hgranted, List.mem_append]
  rcases hcall with (hfreed | hwaits) | hwoken | hgranted
  · exact .inr (.inl (.inr hfreed))
  · exact .inl hwaits
  · exact .inr (.inl (.inl hwoken))
  · exact .inr (.inr hgranted)

/-! ### What wakes calls and no more -/

theorem managed_wakes (c : Http2Connection) (m : Manager) : Wakes c (c.managed m) := (c.managed_hears m).waiters

theorem TornDown.wakes {err : JsError} (h : TornDown c c' err) : Wakes c c' :=
  ⟨c.slotWaiters, by rw [h.slotWaiters, List.append_nil], h.woken⟩

theorem executeRequest_wakes (c : Http2Connection) (streamId : StreamId) (call : RequestCall) :
    Wakes c (c.executeRequest streamId call) := by
  apply executeRequest_induction c streamId call
  · exact fun _ => ((Hears.delete c streamId).trans (.releaseSlot _)).waiters
  · exact fun _ => c.managed_wakes _
  · exact fun c' effect _ hbefore => hbefore
  · exact fun c' data hbefore => hbefore.trans (c'.managed_wakes _)

theorem Aside.pending (h : Aside c c') (hcall : call ∈ c.pending) : call ∈ c'.pending := by
  rw [Http2Connection.pending, h.slotWaiters, h.woken, h.granted]
  exact hcall

theorem manage_pending (hcall : call ∈ c.pending) (op : ManagerOp) : call ∈ (c.manage op).pending :=
  (c.managed_wakes _).pending (c.managed_hears _).granted hcall

/-! ### Where a call goes -/

theorem acquireSlot_pending {other : RequestCall} (h : call = other ∨ call ∈ c.pending) : call ∈ (c.acquireSlot other).pending := by
  rw [mem_pending_iff] at h ⊢
  rw [acquireSlot]
  split
  · rcases h with rfl | hwaits | hwoken | hgranted
    · exact .inr (.inr (List.mem_append_right _ List.mem_cons_self))
    · exact .inl hwaits
    · exact .inr (.inl hwoken)
    · exact .inr (.inr (List.mem_append_left _ hgranted))
  · rcases h with rfl | hwaits | hready
    · exact .inl (List.mem_append_right _ List.mem_cons_self)
    · exact .inl (List.mem_append_left _ hwaits)
    · exact .inr hready

theorem openRequestStream_wakes (c : Http2Connection) : Wakes c c.openRequestStream ∧ c.openRequestStream.granted = c.granted := by
  rw [openRequestStream_eq]
  exact ⟨.same rfl rfl, rfl⟩

theorem resume_wakes (hcall : call ∈ c.granted) :
    Wakes { c with granted := c.granted.erase call } (c.resume call) ∧ (c.resume call).granted = c.granted.erase call := by
  rw [resume, if_pos hcall]
  obtain ⟨hopened, hgranted⟩ := openRequestStream_wakes { c with granted := c.granted.erase call }
  exact ⟨hopened.trans (executeRequest_wakes _ _ call), (executeRequest_shrinks _ _ call).granted.trans hgranted⟩

/-- A call stays on its way until it runs on. -/
theorem Moves.pending {s : ConnectionStep} (hmoves : Moves c s c') (h : call ∈ c.pending) :
    call ∈ c'.pending ∨ s = .resume call ∧ call ∈ c.granted := by
  cases hmoves with
  | aside haside => exact .inl (haside.pending h)
  | requested other hopen => exact .inl (acquireSlot_pending (.inr h))
  | woke other hother =>
      refine .inl (acquireSlot_pending (c := { c with woken := c.woken.erase other }) ?_)
      by_cases hsame : call = other
      · exact .inl hsame
      · refine .inr (mem_pending_iff.mpr ((mem_pending_iff.mp h).imp_right fun hready => ?_))
        exact hready.imp_left (List.mem_erase_of_ne hsame).mpr
  | resumed other hother =>
      by_cases hsame : call = other
      · exact .inr ⟨hsame ▸ rfl, hsame ▸ hother⟩
      · obtain ⟨hwakes, hgranted⟩ := resume_wakes hother
        refine .inl (hwakes.pending hgranted ?_)
        refine mem_pending_iff.mpr ((mem_pending_iff.mp h).imp_right fun hready => ?_)
        exact hready.imp_right (List.mem_erase_of_ne hsame).mpr
  | leaving lastStreamId errorCode debugData => exact .inl h
  | tornDown hopen htorn => exact .inl (htorn.wakes.pending htorn.granted h)
  | received frame hreading haside => exact .inl (haside.pending (manage_pending h _))
  | failed frame hreading hopen htorn => exact .inl (htorn.wakes.pending htorn.granted (manage_pending h _))

theorem step_pending (h : call ∈ c.pending) (s : ConnectionStep) :
    call ∈ (c.step s).pending ∨ s = .resume call ∧ call ∈ c.granted :=
  (c.step_moves s).pending h

end Http2Connection

end BrowsercoreHttp2
