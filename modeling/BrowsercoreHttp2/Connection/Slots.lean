import BrowsercoreHttp2.Connection.Steps

/-!
# Concurrency slots

`acquireSlot` lets a call through while fewer streams are active than the limit, and the call adds its
stream only when it runs again. Nothing counts the calls in between, so the limit holds as long as each
call that is let through finds room beside the active streams and the calls let through before it.
-/

namespace BrowsercoreHttp2

/-! ### The limit -/

namespace Manager

theorem applyInitialWindowSize_maxConcurrentStreams (m : Manager) (value : Nat) :
    (m.applyInitialWindowSize value).maxConcurrentStreams = m.maxConcurrentStreams := by
  rw [applyInitialWindowSize, (sends_settings (forEachStream_drainSendQueue_sends _)).2]
  exact forEachStream_induction (motive := fun m' => m'.maxConcurrentStreams = m.maxConcurrentStreams) rfl
    fun m' st hkept _ => hkept

theorem handleWindowUpdate_maxConcurrentStreams (m : Manager) (frame : WindowUpdateFrame) :
    (m.handleWindowUpdate frame).maxConcurrentStreams = m.maxConcurrentStreams := by
  rw [handleWindowUpdate]
  split
  · exact (sends_settings (forEachStream_drainSendQueue_sends _)).2
  · split
    · rfl
    · exact (sends_settings (drainSendQueue_sends (Table.get_set_self _ _))).2

theorem sendData_maxConcurrentStreams (m : Manager) (streamId : StreamId) (data : Bytes) (endStream : Bool) :
    (m.sendData streamId data endStream).maxConcurrentStreams = m.maxConcurrentStreams := by
  rw [sendData]
  split
  · rfl
  · exact (sends_settings (drainSendQueue_sends (Table.get_set_self _ _))).2

theorem applyRemoteSettings_maxConcurrentStreams (m : Manager) (settings : SettingsMap) :
    (m.applyRemoteSettings settings).maxConcurrentStreams = m.maxConcurrentStreams ∨
      (0x3, (m.applyRemoteSettings settings).maxConcurrentStreams) ∈ settings.entries := by
  unfold applyRemoteSettings
  generalize settings.entries = entries
  induction entries generalizing m with
  | nil => exact .inl rfl
  | cons entry entries ih =>
      obtain ⟨key, value⟩ := entry
      rw [List.foldl_cons]
      have hset : (m.applyRemoteSetting key value).maxConcurrentStreams = m.maxConcurrentStreams ∨
          key = 0x3 ∧ (m.applyRemoteSetting key value).maxConcurrentStreams = value := by
        unfold applyRemoteSetting
        split
        · exact .inr ⟨rfl, rfl⟩
        · exact .inl (applyInitialWindowSize_maxConcurrentStreams m value)
        · exact .inl rfl
        · exact .inl rfl
      rcases ih (m.applyRemoteSetting key value) with hkept | hmem
      · rw [hkept]
        rcases hset with hsame | ⟨rfl, hvalue⟩
        · exact .inl hsame
        · exact .inr (hvalue ▸ List.mem_cons_self)
      · exact .inr (List.mem_cons_of_mem _ hmem)

/-- Only a SETTINGS frame moves the limit, and only to a value it carries. -/
theorem step_maxConcurrentStreams (m : Manager) (op : ManagerOp) :
    (m.step op).maxConcurrentStreams = m.maxConcurrentStreams ∨
      ∃ frame : SettingsFrame, op = .dispatch (.settings frame) ∧ frame.ack = false ∧
        (0x3, (m.step op).maxConcurrentStreams) ∈ frame.settings.entries := by
  by_cases hscope : op.scope = .sends
  · cases op with
    | sendData streamId data endStream => exact .inl (sendData_maxConcurrentStreams m streamId data endStream)
    | applyWindowUpdate streamId increment => exact .inl (handleWindowUpdate_maxConcurrentStreams m _)
    | dispatch frame =>
        cases frame with
        | windowUpdate frame => exact .inl (handleWindowUpdate_maxConcurrentStreams m frame)
        | settings frame =>
            simp only [step, dispatch, handleSettings]
            cases hack : frame.ack with
            | true => exact .inl rfl
            | false =>
                rcases applyRemoteSettings_maxConcurrentStreams m frame.settings with hkept | hmem
                · exact .inl hkept
                · exact .inr ⟨frame, rfl, hack, hmem⟩
        | _ => exact absurd hscope (by simp [ManagerOp.scope])
    | _ => exact absurd hscope (by simp [ManagerOp.scope])
  · exact .inl (m.step_limits hscope).concurrent

end Manager

namespace Http2Connection

/-! ### Room for the calls let through -/

def activeCount (c : Http2Connection) : Nat := c.activeClientStreams.entries.length

/-- The slots that the calls let through take at once. While the connection is closing each of them gives its slot back before
the next one runs. -/
def reservedCount (c : Http2Connection) (granted : Nat) : Nat := if c.closing then min 1 granted else granted

/-- The calls let through fit the limit beside the active streams. -/
def Reserved (c : Http2Connection) : Prop :=
  c.granted ≠ [] → c.activeCount + c.reservedCount c.granted.length ≤ c.manager.maxConcurrentStreams

/-- Letting one more call through leaves it room. -/
def HasRoom (c : Http2Connection) : Prop :=
  c.activeCount + c.reservedCount (c.granted.length + 1) ≤ c.manager.maxConcurrentStreams

/-- The condition a step has to meet: whoever it lets through finds room, and a SETTINGS frame does not
lower the limit below the streams that are active or about to be. -/
def KeepsRoom (c : Http2Connection) : ConnectionStep → Prop
  | .request _ => c.closing = false → c.closed = false → c.slotFree = true → c.HasRoom
  | .wake call => call ∈ c.woken → c.slotFree = true → c.HasRoom
  | .receiveFrame (.settings frame) =>
      frame.ack = false → c.granted ≠ [] →
        ∀ entry ∈ frame.settings.entries, entry.1 = 0x3 → c.activeCount + c.reservedCount c.granted.length ≤ entry.2
  | _ => True

instance (c : Http2Connection) : Decidable c.HasRoom :=
  inferInstanceAs (Decidable (c.activeCount + c.reservedCount (c.granted.length + 1) ≤ c.manager.maxConcurrentStreams))

instance (c : Http2Connection) : (s : ConnectionStep) → Decidable (c.KeepsRoom s)
  | .request _ => inferInstanceAs (Decidable (c.closing = false → c.closed = false → c.slotFree = true → c.HasRoom))
  | .wake call => inferInstanceAs (Decidable (call ∈ c.woken → c.slotFree = true → c.HasRoom))
  | .receiveFrame (.settings frame) =>
      inferInstanceAs (Decidable (frame.ack = false → c.granted ≠ [] →
        ∀ entry ∈ frame.settings.entries, entry.1 = 0x3 → c.activeCount + c.reservedCount c.granted.length ≤ entry.2))
  | .receiveFrame (.data _) | .receiveFrame (.headers _) | .receiveFrame (.priority _) | .receiveFrame (.rstStream _)
  | .receiveFrame (.pushPromise _) | .receiveFrame (.ping _) | .receiveFrame (.goaway _) | .receiveFrame (.windowUpdate _)
  | .receiveFrame (.continuation _) | .resume _ | .goaway _ _ _ | .close | .ping _ _ | .waitForSettingsAck _ _
  | .settingsAckTimeout _ | .readError _ => isTrue trivial

/-- A step that lets nobody through, opens nothing and leaves the limit. -/
structure Shrinks (c c' : Http2Connection) : Prop where
  granted : c'.granted = c.granted
  active : c'.activeCount ≤ c.activeCount
  limit : c'.manager.maxConcurrentStreams = c.manager.maxConcurrentStreams
  closing : c.closing = true → c'.closing = true

variable {c c' c'' : Http2Connection}

theorem Shrinks.trans (h : Shrinks c c') (h' : Shrinks c' c'') : Shrinks c c'' :=
  ⟨h'.granted.trans h.granted, h'.active.trans h.active, h'.limit.trans h.limit, h'.closing ∘ h.closing⟩

theorem Shrinks.perform (h : Shrinks c c') (effect : ConnectionEffect) : Shrinks c (c'.perform effect) :=
  ⟨h.granted, h.active, h.limit, h.closing⟩

theorem Hears.shrinks (h : Hears c c') : Shrinks c c' :=
  ⟨h.granted, h.active.length_le, congrArg Manager.maxConcurrentStreams h.manager, h.closing⟩

theorem managed_shrinks (c : Http2Connection) {m : Manager} (h : m.maxConcurrentStreams = c.manager.maxConcurrentStreams) :
    Shrinks c (c.managed m) := by
  have hmoved : Shrinks c { c with manager := m } := ⟨rfl, le_refl _, h, id⟩
  exact hmoved.trans (c.managed_hears m).shrinks

theorem manage_shrinks (c : Http2Connection) {op : ManagerOp} (hop : ∀ frame, op ≠ .dispatch (.settings frame)) :
    Shrinks c (c.manage op) := by
  refine c.managed_shrinks ?_
  rcases c.manager.step_maxConcurrentStreams op with hkept | ⟨frame, hframe, -⟩
  · exact hkept
  · exact absurd hframe (hop frame)

theorem Aside.shrinks (h : Aside c c') : Shrinks c c' :=
  ⟨h.granted, (congrArg (fun streams : StreamIdSet => streams.entries.length) h.active).le,
    congrArg Manager.maxConcurrentStreams h.manager, h.closing.trans⟩

theorem TornDown.shrinks {err : JsError} (h : TornDown c c' err) : Shrinks c c' := by
  have haborted := @manage_shrinks c (.abortAll err) fun _ => by simp
  refine ⟨h.granted, ?_, ?_, fun _ => h.closing⟩
  · rw [activeCount, h.active]
    exact Nat.zero_le _
  · rw [h.manager, ← haborted.limit, manage, managed_manager]

theorem executeRequest_shrinks (c : Http2Connection) (streamId : StreamId) (call : RequestCall) :
    Shrinks c (c.executeRequest streamId call) := by
  apply executeRequest_induction c streamId call
  · exact fun _ => ((Hears.delete c streamId).trans (.releaseSlot _)).shrinks
  · exact fun _ => c.manage_shrinks fun _ => by simp
  · exact fun c' effect _ hbefore => hbefore.perform effect
  · exact fun c' data hbefore => hbefore.trans (c'.manage_shrinks fun _ => by simp)

theorem openRequestStream_activeCount (c : Http2Connection) :
    c.openRequestStream.activeCount ≤ c.activeCount + 1 ∧ c.openRequestStream.granted = c.granted ∧
      c.openRequestStream.manager.maxConcurrentStreams = c.manager.maxConcurrentStreams := by
  have hopened := @manage_shrinks c (.openStream) fun _ => by simp
  refine ⟨?_, hopened.granted, hopened.limit⟩
  have hset := Table.length_set_le (c.manage .openStream).activeClientStreams c.manager.nextStreamId
  have hactive := hopened.active
  rw [activeCount] at hactive ⊢
  rw [openRequestStream]
  dsimp only
  omega

theorem openRequestStream_closing (c : Http2Connection) (h : c.closing = true) : c.openRequestStream.closing = true :=
  (@manage_shrinks c (.openStream) fun _ => by simp).closing h

theorem openRequestStream_delete (c : Http2Connection) :
    Shrinks c { c.openRequestStream with
      activeClientStreams := c.openRequestStream.activeClientStreams.delete c.manager.nextStreamId } := by
  have hopened := @manage_shrinks c (.openStream) fun _ => by simp
  refine ⟨hopened.granted, ?_, hopened.limit, hopened.closing⟩
  have hdeleted := Table.length_delete_set_le (c.manage .openStream).activeClientStreams c.manager.nextStreamId
  exact hdeleted.trans hopened.active

theorem executeRequest_opened_shrinks (hclosing : c.closing = true) (call : RequestCall) :
    Shrinks c (c.openRequestStream.executeRequest c.manager.nextStreamId call) := by
  rcases c.openRequestStream.executeRequest_cases c.manager.nextStreamId call with ⟨-, hsame⟩ | ⟨hopen, -⟩
  · rw [hsame]
    exact (c.openRequestStream_delete.trans (Hears.releaseSlot _).shrinks).perform _
  · rw [c.openRequestStream_closing hclosing] at hopen
    exact absurd hopen Bool.noConfusion

/-! ### One step -/

theorem reservedCount_open (h : c.closing = false) (granted : Nat) : c.reservedCount granted = granted :=
  if_neg (Bool.eq_false_iff.mp h)

theorem reservedCount_closing (h : c.closing = true) (granted : Nat) : c.reservedCount granted = min 1 granted := if_pos h

theorem reservedCount_le (c : Http2Connection) (granted : Nat) : c.reservedCount granted ≤ granted := by
  rw [reservedCount]
  split
  · exact min_le_right 1 granted
  · exact le_refl granted

theorem reservedCount_pos (c : Http2Connection) {granted : Nat} (h : 0 < granted) : 0 < c.reservedCount granted := by
  rw [reservedCount]
  split
  · exact lt_min Nat.one_pos h
  · exact h

theorem Shrinks.reservedCount_le (h : Shrinks c c') (granted : Nat) : c'.reservedCount granted ≤ c.reservedCount granted := by
  cases hclosing : c.closing with
  | true => rw [reservedCount_closing hclosing, reservedCount_closing (h.closing hclosing)]
  | false =>
      rw [reservedCount_open hclosing]
      exact c'.reservedCount_le granted

theorem Reserved.shrinks (h : c.Reserved) (hshrinks : Shrinks c c') : c'.Reserved := by
  intro hgranted
  rw [hshrinks.granted] at hgranted ⊢
  have hreserved := h hgranted
  have hactive := hshrinks.active
  have hlimit := hshrinks.limit
  have hcount := hshrinks.reservedCount_le c.granted.length
  omega

theorem acquireSlot_reserved (h : c.Reserved) (call : RequestCall) (hroom : c.slotFree = true → c.HasRoom) :
    (c.acquireSlot call).Reserved := by
  rw [acquireSlot]
  split
  · rename_i hfree
    intro _
    rw [List.length_append, List.length_singleton]
    exact hroom hfree
  · exact h

/-- While a call is let through, the stream it opens fits the limit. -/
theorem Reserved.opens (h : c.Reserved) {call : RequestCall} (hcall : call ∈ c.granted) :
    c.openRequestStream.activeCount ≤ c.openRequestStream.manager.maxConcurrentStreams := by
  obtain ⟨hactive, -, hlimit⟩ := c.openRequestStream_activeCount
  have hreserved := h (List.ne_nil_of_mem hcall)
  have hpos := c.reservedCount_pos (List.length_pos_of_mem hcall)
  omega

theorem resumed_open_reserved (h : c.Reserved) {call : RequestCall} (hcall : call ∈ c.granted) (hopen : c.closing = false) :
    { c with granted := c.granted.erase call }.openRequestStream.Reserved := by
  obtain ⟨hactive, hgranted, hlimit⟩ := { c with granted := c.granted.erase call }.openRequestStream_activeCount
  intro _
  have hreserved := h (List.ne_nil_of_mem hcall)
  rw [reservedCount_open hopen] at hreserved
  have hcount := { c with granted := c.granted.erase call }.openRequestStream.reservedCount_le (c.granted.erase call).length
  have hpos := List.length_pos_of_mem hcall
  have herased : (c.granted.erase call).length = c.granted.length - 1 := List.length_erase_of_mem hcall
  have hsame : ({ c with granted := c.granted.erase call } : Http2Connection).activeCount = c.activeCount := rfl
  rw [hgranted, hlimit]
  dsimp only
  omega

/-- While it is closing, the calls behind the one that runs find the slot free again. -/
theorem resumed_closing_reserved (h : c.Reserved) {call : RequestCall} (hcall : call ∈ c.granted) (hclosing : c.closing = true) :
    { c with granted := c.granted.erase call }.Reserved := by
  intro hrest
  have hreserved := h (List.ne_nil_of_mem hcall)
  have hfew : min 1 (c.granted.erase call).length ≤ min 1 c.granted.length := min_le_min_left 1 List.length_erase_le
  rw [reservedCount_closing hclosing] at hreserved
  rw [reservedCount_closing (c := { c with granted := c.granted.erase call }) hclosing]
  exact (Nat.add_le_add_left hfew c.activeCount).trans hreserved

theorem resume_reserved (h : c.Reserved) (call : RequestCall) : (c.resume call).Reserved := by
  rw [resume]
  split
  · rename_i hcall
    rcases Bool.eq_false_or_eq_true c.closing with hclosing | hopen
    · have hexecuted := executeRequest_opened_shrinks (c := { c with granted := c.granted.erase call }) hclosing call
      exact (resumed_closing_reserved h hcall hclosing).shrinks hexecuted
    · exact (resumed_open_reserved h hcall hopen).shrinks (executeRequest_shrinks _ _ call)
  · exact h

theorem manage_settings_reserved (h : c.Reserved) (frame : SettingsFrame) (hroom : c.KeepsRoom (.receiveFrame (.settings frame))) :
    (c.manage (.dispatch (.settings frame))).Reserved := by
  rcases c.manager.step_maxConcurrentStreams (.dispatch (.settings frame)) with hkept | ⟨frame', hframe, hack, hmem⟩
  · exact h.shrinks (c.managed_shrinks hkept)
  · obtain rfl : frame = frame' := by simpa using hframe
    have hheard := (c.managed_hears (c.manager.step (.dispatch (.settings frame)))).shrinks
    refine Reserved.shrinks ?_ hheard
    intro hgranted
    exact hroom hack hgranted _ hmem rfl

theorem manage_frame_reserved (h : c.Reserved) {frame : Frame} (hroom : c.KeepsRoom (.receiveFrame frame)) :
    (c.manage (.dispatch frame)).Reserved := by
  by_cases hsettings : ∃ settings, frame = .settings settings
  · obtain ⟨settings, rfl⟩ := hsettings
    exact manage_settings_reserved h settings hroom
  · exact h.shrinks (c.manage_shrinks fun settings hop => hsettings ⟨settings, by simpa using hop⟩)

/-- A step that meets its condition keeps room for the calls let through. -/
theorem Reserved.moves {s : ConnectionStep} (h : c.Reserved) (hroom : c.KeepsRoom s) (hmoves : Moves c s c') : c'.Reserved := by
  cases hmoves with
  | aside haside => exact h.shrinks haside.shrinks
  | requested call hopen =>
      obtain ⟨hclosing, hclosed⟩ := Bool.or_eq_false_iff.mp hopen
      exact acquireSlot_reserved h call (hroom hclosing hclosed)
  | woke call hcall => exact acquireSlot_reserved (c := { c with woken := c.woken.erase call }) h call (hroom hcall)
  | resumed call hcall => exact resume_reserved h call
  | leaving lastStreamId errorCode debugData => exact h.shrinks ⟨rfl, le_refl _, rfl, fun _ => rfl⟩
  | tornDown hopen htorn => exact h.shrinks htorn.shrinks
  | received frame hreading haside => exact (manage_frame_reserved h hroom).shrinks haside.shrinks
  | failed frame hreading hopen htorn => exact (manage_frame_reserved h hroom).shrinks htorn.shrinks

/-! ### Whole runs -/

/-- Every step of a run meets its condition. -/
def KeepsRoomThroughout (c : Http2Connection) : List ConnectionStep → Prop
  | [] => True
  | s :: rest => c.KeepsRoom s ∧ (c.step s).KeepsRoomThroughout rest

instance decidableKeepsRoomThroughout (c : Http2Connection) : (s : List ConnectionStep) → Decidable (c.KeepsRoomThroughout s)
  | [] => isTrue trivial
  | s :: rest =>
      have := (c.step s).decidableKeepsRoomThroughout rest
      inferInstanceAs (Decidable (c.KeepsRoom s ∧ (c.step s).KeepsRoomThroughout rest))

theorem steps_reserved (h : c.Reserved) {s : List ConnectionStep} (hroom : c.KeepsRoomThroughout s) : (c.steps s).Reserved := by
  induction s generalizing c with
  | nil => exact h
  | cons s rest ih => exact ih (h.moves hroom.1 (c.step_moves s)) hroom.2

theorem keepsRoomThroughout_append {s s' : List ConnectionStep} (h : c.KeepsRoomThroughout (s ++ s')) : c.KeepsRoomThroughout s := by
  induction s generalizing c with
  | nil => trivial
  | cons s rest ih => exact ⟨h.1, ih h.2⟩

theorem run_reserved {options : Http2Options} {s : List ConnectionStep}
    (hroom : KeepsRoomThroughout { options } s) : (run options s).Reserved :=
  steps_reserved (fun hgranted => absurd rfl hgranted) hroom

end Http2Connection

open Http2Connection in
/-- In every run whose steps all leave room, whenever a call of `request()` opens its stream, the active
streams are within the limit then in force. -/
theorem streams_within_limit (options : Http2Options) (s : List ConnectionStep) (hroom : KeepsRoomThroughout { options } s) :
    ∀ before call later, s = before ++ .resume call :: later → call ∈ (run options before).granted →
      (run options before).openRequestStream.activeClientStreams.entries.length ≤
        (run options before).openRequestStream.manager.maxConcurrentStreams := by
  rintro before call later rfl hcall
  exact (run_reserved (keepsRoomThroughout_append hroom)).opens hcall

def getRequest : Http2Request where
  method := "GET"
  scheme := "https"
  authority := "a"
  path := "/"
  headers := .empty
  body := none

/-- Two calls that differ in their promise. -/
def firstCall : RequestCall := ⟨getRequest, 0⟩

def secondCall : RequestCall := ⟨getRequest, 1⟩

/-- SETTINGS with MAX_CONCURRENT_STREAMS 1. -/
def limitOne : Frame := .settings { flags := 0, streamId := 0, ack := false, settings := SettingsMap.empty.set 0x3 1 }

/-- A whole response on stream 1: `:status` 200 and the end of the stream. -/
def answerOne : Frame := .headers { flags := 0x5, streamId := 1, endHeaders := true, endStream := true, padded := false, payload := [0x88] }

/-- The second call waits for the slot of the first, and is let through once the first is answered. -/
def slotHandedOn : List ConnectionStep :=
  [.receiveFrame limitOne, .request firstCall, .resume firstCall, .request secondCall, .receiveFrame answerOne, .wake secondCall]

open Http2Connection in
theorem streams_within_limit_one :
    (run {} (slotHandedOn.take 4)).slotWaiters = [secondCall] ∧
      (run {} slotHandedOn).openRequestStream.activeClientStreams.entries.length ≤
        (run {} slotHandedOn).openRequestStream.manager.maxConcurrentStreams :=
  ⟨by decide +kernel,
    streams_within_limit {} (slotHandedOn ++ [.resume secondCall]) (by decide +kernel) slotHandedOn secondCall [] rfl (by decide +kernel)⟩

open Http2Connection in
/-- Two calls pass the check before either opens its stream, and a limit of one lets both through. -/
theorem two_streams_past_limit_one :
    secondCall ∈ (run {} [.receiveFrame limitOne, .request firstCall, .request secondCall, .resume firstCall]).granted ∧
      ¬ (run {} [.receiveFrame limitOne, .request firstCall, .request secondCall,
          .resume firstCall]).openRequestStream.activeClientStreams.entries.length ≤
        (run {} [.receiveFrame limitOne, .request firstCall, .request secondCall,
          .resume firstCall]).openRequestStream.manager.maxConcurrentStreams := by
  constructor <;> decide +kernel

end BrowsercoreHttp2
