import BrowsercoreHttp2.Library.Runs
import BrowsercoreHttp2.Connection.ActiveStreams
import BrowsercoreHttp2.Connection.Calls

/-!
# Waiting for a slot

A call that finds no free slot waits until a stream closes and wakes it. While the connection is open, the
active streams and the calls on their way to opening one take up the whole limit as long as anybody waits:
every stream that closes puts a waiter in its place. A SETTINGS frame that raises the limit wakes nobody, so
the calls that wait then go on waiting beside free slots.
-/

namespace BrowsercoreHttp2

namespace Http2Connection

/-- Nobody waits while there is capacity. -/
def WaitsOnlyWhenFull (c : Http2Connection) : Prop :=
  c.Quiescent → c.closing = false → c.slotWaiters ≠ [] → c.manager.maxConcurrentStreams ≤ c.activeCount

instance (c : Http2Connection) : Decidable c.WaitsOnlyWhenFull := inferInstanceAs (Decidable (_ → _))

/-- The active streams and the calls that are about to open one. -/
def occupancy (c : Http2Connection) : Nat := c.activeCount + c.woken.length + c.granted.length

/-- The condition a step has to meet: a SETTINGS frame that finds calls waiting does not raise the limit above
what is occupied. -/
def FillsLimit (c : Http2Connection) : ConnectionStep → Prop
  | .receiveFrame (.settings frame) =>
      frame.ack = false → c.closing = false → c.slotWaiters ≠ [] →
        ∀ entry ∈ frame.settings.entries, entry.1 = 0x3 → entry.2 ≤ c.occupancy
  | _ => True

variable {c c' c'' : Http2Connection}

/-! ### Closed streams -/

/-- A slot that frees goes to a waiter, as long as one is left. -/
def Frees (c c' : Http2Connection) : Prop :=
  c'.slotWaiters ≠ [] → c.activeCount + c.woken.length ≤ c'.activeCount + c'.woken.length

theorem Wakes.slotWaiters_ne_nil (h : Wakes c c') (hwaits : c'.slotWaiters ≠ []) : c.slotWaiters ≠ [] := by
  obtain ⟨freed, hwaiters, -⟩ := h
  rw [hwaiters]
  exact List.append_ne_nil_of_right_ne_nil freed hwaits

theorem Frees.trans (h : Frees c c') (h' : Frees c' c'') (hwakes : Wakes c' c'') : Frees c c'' := by
  intro hwaits
  exact (h (hwakes.slotWaiters_ne_nil hwaits)).trans (h' hwaits)

theorem onStreamClosed_frees (c : Http2Connection) (streamId : StreamId) : Frees c (c.onStreamClosed streamId) := by
  rw [onStreamClosed]
  split
  · have hdeleted := c.activeClientStreams.length_le_length_delete streamId
    rw [releaseSlot]
    split
    · rename_i hnone
      exact fun hwaits => absurd hnone hwaits
    · intro _
      simp only [activeCount, List.length_append, List.length_singleton]
      omega
  · exact fun _ => le_refl _

theorem onEvent_frees (c : Http2Connection) (event : Event) : Frees c (c.onEvent event) := by
  cases event with
  | streamClosed streamId => exact c.onStreamClosed_frees streamId
  | settingsAck =>
      simp only [onEvent, onSettingsAck]
      split <;> exact fun _ => le_refl _
  | _ => exact fun _ => le_refl _

theorem onEffect_frees (c : Http2Connection) (effect : Effect) : Frees c (c.onEffect effect) := by
  unfold onEffect
  dsimp only
  split
  · exact onEvent_frees (c.perform _) _
  · exact fun _ => le_refl _

theorem managed_frees (c : Http2Connection) (m : Manager) : Frees c (c.managed m) := by
  apply managed_induction c
  · exact fun _ => le_refl _
  · exact fun c' effect _ hfrees => hfrees.trans (c'.onEffect_frees effect) (Hears.onEffect c' effect).waiters

/-! ### Occupied slots -/

/-- While calls wait, the limit is used up. -/
def Occupied (c : Http2Connection) : Prop :=
  c.closing = false → c.slotWaiters ≠ [] → c.manager.maxConcurrentStreams ≤ c.occupancy

theorem Occupied.aside (h : c.Occupied) (haside : Aside c c') : c'.Occupied := by
  intro hopen hwaits
  rw [haside.manager, occupancy, activeCount, haside.active, haside.woken, haside.granted]
  exact h (haside.closing ▸ hopen) (haside.slotWaiters ▸ hwaits)

theorem Occupied.of_closing (hclosing : c.closing = true) : c.Occupied := by
  intro hopen
  rw [hclosing] at hopen
  exact absurd hopen (by decide)

theorem managed_occupied {m : Manager} (hlimit : c.closing = false → c.slotWaiters ≠ [] → m.maxConcurrentStreams ≤ c.occupancy) :
    (c.managed m).Occupied := by
  intro hopen hwaits
  have hhears := c.managed_hears m
  have hwaited : c.slotWaiters ≠ [] := hhears.waiters.slotWaiters_ne_nil hwaits
  have hclosing : c.closing = false := by
    by_contra hnot
    rw [hhears.closing (Bool.not_eq_false _ ▸ hnot)] at hopen
    exact absurd hopen (by decide)
  have hfull := hlimit hclosing hwaited
  have hfrees := c.managed_frees m hwaits
  have hgranted : (c.managed m).granted = c.granted := hhears.granted
  rw [managed_manager, occupancy, hgranted]
  rw [occupancy] at hfull
  omega

theorem Occupied.manage (h : c.Occupied) {op : ManagerOp} (hop : ∀ frame, op ≠ .dispatch (.settings frame)) : (c.manage op).Occupied := by
  refine managed_occupied fun hclosing hwaits => ?_
  rcases c.manager.step_maxConcurrentStreams op with hkept | ⟨frame, hframe, -⟩
  · rw [hkept]
    exact h hclosing hwaits
  · exact absurd hframe (hop frame)

/-! ### One step -/

theorem acquireSlot_occupied (hfull : c.closing = false → c.slotWaiters ≠ [] → c.manager.maxConcurrentStreams ≤ c.occupancy + 1)
    (call : RequestCall) : (c.acquireSlot call).Occupied := by
  rw [acquireSlot]
  split
  · intro hopen hwaits
    have hless := hfull hopen hwaits
    simp only [occupancy, List.length_append, List.length_singleton]
    exact hless
  · rename_i htaken
    intro _ _
    have hroom : ¬ c.activeCount < c.manager.maxConcurrentStreams := by
      simp only [slotFree, Bool.or_eq_true, decide_eq_true_eq, not_or] at htaken
      exact htaken.2
    simp only [occupancy]
    exact (not_lt.mp hroom).trans (Nat.le_add_right_of_le (Nat.le_add_right _ _))

theorem executeRequest_occupied (h : c.Occupied) (streamId : StreamId) (call : RequestCall) (hclosed : c.closed = true → c.closing = true) :
    (c.executeRequest streamId call).Occupied := by
  have hhears := (Hears.delete c streamId).trans (.releaseSlot _)
  apply executeRequest_induction c streamId call
  · intro hclosing
    refine Occupied.of_closing (hhears.closing ?_)
    exact (Bool.or_eq_true _ _ |>.mp hclosing).elim (fun h => h) hclosed
  · exact fun _ => h.manage fun _ => by simp
  · exact fun c' effect _ hbefore => hbefore.aside (.perform c' effect)
  · exact fun c' data hbefore => hbefore.manage fun _ => by simp

/-- A call that runs on after `acquireSlot` turns its place into an active stream. -/
theorem resume_occupied (h : c.Occupied) (hids : c.Accounted) (hclosed : c.closed = true → c.closing = true) (call : RequestCall) :
    (c.resume call).Occupied := by
  rw [resume]
  split
  · rename_i hcall
    rw [openRequestStream_eq]
    refine executeRequest_occupied (fun hopen hwaits => ?_) _ call hclosed
    have hfull := h hopen hwaits
    have hfresh : c.manager.nextStreamId ∉ c.activeClientStreams.keys := by
      intro hmem
      obtain ⟨id, hid, hsame⟩ := List.mem_map.mp hmem
      exact absurd hsame (hids.ids id hid).ne
    have hactive := Table.length_set_of_not_mem hfresh
    have herased : (c.granted.erase call).length = c.granted.length - 1 := List.length_erase_of_mem hcall
    have hpos := List.length_pos_of_mem hcall
    simp only [occupancy, activeCount] at hfull ⊢
    have hlimit : c.manager.openStream.1.maxConcurrentStreams = c.manager.maxConcurrentStreams := rfl
    rw [hlimit]
    omega
  · exact h

theorem manage_settings_occupied (h : c.Occupied) (frame : SettingsFrame) (hfills : c.FillsLimit (.receiveFrame (.settings frame))) :
    (c.manage (.dispatch (.settings frame))).Occupied := by
  refine managed_occupied fun hopen hwaits => ?_
  rcases c.manager.step_maxConcurrentStreams (.dispatch (.settings frame)) with hkept | ⟨frame', hframe, hack, hmem⟩
  · rw [hkept]
    exact h hopen hwaits
  · obtain rfl : frame = frame' := by simpa using hframe
    exact hfills hack hopen hwaits _ hmem rfl

theorem manage_frame_occupied (h : c.Occupied) {frame : Frame} (hfills : c.FillsLimit (.receiveFrame frame)) :
    (c.manage (.dispatch frame)).Occupied := by
  by_cases hsettings : ∃ settings, frame = .settings settings
  · obtain ⟨settings, rfl⟩ := hsettings
    exact manage_settings_occupied h settings hfills
  · exact h.manage fun settings hop => hsettings ⟨settings, by simpa using hop⟩

/-- A step that meets its condition leaves nobody waiting beside a free slot. -/
theorem Occupied.moves {s : ConnectionStep} (h : c.Occupied) (hids : c.Accounted) (hclosed : c.closed = true → c.closing = true)
    (hfills : c.FillsLimit s) (hmoves : Moves c s c') : c'.Occupied := by
  cases hmoves with
  | aside haside => exact h.aside haside
  | requested call hopen => exact acquireSlot_occupied (fun hopen hwaits => (h hopen hwaits).trans (Nat.le_succ _)) call
  | woke call hcall =>
      refine acquireSlot_occupied (c := { c with woken := c.woken.erase call }) (fun hopen hwaits => ?_) call
      have hfull := h hopen hwaits
      have herased : (c.woken.erase call).length = c.woken.length - 1 := List.length_erase_of_mem hcall
      have hpos := List.length_pos_of_mem hcall
      simp only [occupancy, activeCount] at hfull ⊢
      omega
  | resumed call hcall => exact resume_occupied h hids hclosed call
  | leaving lastStreamId errorCode debugData => exact .of_closing rfl
  | tornDown hopen htorn => exact .of_closing htorn.closing
  | received frame hreading haside => exact (manage_frame_occupied h hfills).aside haside
  | failed frame hreading hopen htorn => exact .of_closing htorn.closing

/-! ### Whole runs -/

theorem run_occupied {options : Http2Options} {s : List ConnectionStep} (hfills : Throughout step FillsLimit { options } s) :
    (run options s).Occupied := by
  induction s using List.reverseRecOn with
  | nil => exact fun _ hwaits => absurd rfl hwaits
  | append_singleton s a ih =>
      obtain ⟨hbefore, hlast⟩ := throughout_concat.mp hfills
      rw [run_concat]
      exact (ih hbefore).moves (run_accounted options s) (run_closing_of_closed options s) hlast (step_moves _ a)

end Http2Connection

open Http2Connection in
/-- In every run in which no SETTINGS frame raises the limit above what is occupied while calls wait, nobody
waits while there is capacity, in any state the run reaches. -/
theorem waits_only_when_full (options : Http2Options) (s : List ConnectionStep) (hfills : Throughout step FillsLimit { options } s) :
    ∀ before after, s = before ++ after → (run options before).WaitsOnlyWhenFull := by
  rintro before after rfl ⟨hwoken, hgranted⟩ hopen hwaits
  have hfull := run_occupied (throughout_append.mp hfills).1 hopen hwaits
  rwa [occupancy, hwoken, hgranted] at hfull

/-- The only slot is taken and a second call waits for it. -/
def oneWaiting : List ConnectionStep := [.receiveFrame limitOne, .request firstCall, .resume firstCall, .request secondCall]

open Http2Connection in
theorem waits_only_when_full_one : (run {} oneWaiting).WaitsOnlyWhenFull :=
  waits_only_when_full {} oneWaiting ⟨fun _ _ hwaits => absurd rfl hwaits, trivial, trivial, trivial, trivial⟩ oneWaiting [] rfl

/-- SETTINGS with MAX_CONCURRENT_STREAMS 2. -/
def limitTwo : Frame := .settings { flags := 0, streamId := 0, ack := false, settings := SettingsMap.empty.set 0x3 2 }

open Http2Connection in
/-- The limit goes up from one to two, and the second call still waits. -/
theorem raised_limit_wakes_nobody : ¬ (run {} (oneWaiting ++ [.receiveFrame limitTwo])).WaitsOnlyWhenFull := by decide +kernel

end BrowsercoreHttp2
