import BrowsercoreHttp2.Connection.Asks
import BrowsercoreHttp2.Connection.Pings
import BrowsercoreHttp2.Connection.SettingsAcks
import BrowsercoreHttp2.InternalEmitter.Execution

/-!
# The listeners in the emitter

A waiting `ping()` and a `waitForSettingsAck()` are closures registered with the manager's emitter. A closure
that is called takes itself off again. The connection keeps lists of what these closures wait for instead,
and it does what the closures in the emitter do.
-/

namespace BrowsercoreHttp2

namespace Http2Connection

variable {c c' : Http2Connection}

/-! ### The lists -/

def withListeners (c : Http2Connection) (pingHandlers : List PingHandler) (settingsAckWaits : List SettingsAckWait) : Http2Connection :=
  { c with pingHandlers, settingsAckWaits }

/-- The acknowledgement that a step has the listeners hear, by its event. -/
def acknowledged (c : Http2Connection) : ConnectionStep → Option (String × List Nat)
  | .receiveFrame frame =>
      if c.reading then
        match (ManagerOp.dispatch frame).announces with
        | some (.pingAck data) => some ("pingAck", [data])
        | some .settingsAck => some ("settingsAck", [])
        | _ => none
      else none
  | _ => none

variable (pings : List PingHandler) (waits : List SettingsAckWait)

theorem releaseSlot_withListeners (c : Http2Connection) :
    (c.withListeners pings waits).releaseSlot = c.releaseSlot.withListeners pings waits := by
  have hwaiters : (c.withListeners pings waits).slotWaiters = c.slotWaiters := rfl
  rw [releaseSlot, releaseSlot, hwaiters]
  cases c.slotWaiters <;> rfl

theorem onStreamClosed_withListeners (c : Http2Connection) (streamId : StreamId) :
    (c.withListeners pings waits).onStreamClosed streamId = (c.onStreamClosed streamId).withListeners pings waits := by
  have hactive : (c.withListeners pings waits).activeClientStreams = c.activeClientStreams := rfl
  rw [onStreamClosed, onStreamClosed, hactive]
  split
  · exact releaseSlot_withListeners pings waits { c with activeClientStreams := c.activeClientStreams.delete streamId }
  · rfl

theorem onEffect_withListeners (c : Http2Connection) {effect : Effect} (hping : ∀ data, effect ≠ .emitEvent (.pingAck data))
    (hsettings : effect ≠ .emitEvent .settingsAck) :
    (c.withListeners pings waits).onEffect effect = (c.onEffect effect).withListeners pings waits := by
  cases effect with
  | emitEvent event =>
      cases event with
      | pingAck data => exact absurd rfl (hping data)
      | settingsAck => exact absurd rfl hsettings
      | streamClosed id => exact onStreamClosed_withListeners pings waits (c.perform (.manager (.emitEvent (.streamClosed id)))) id
      | _ => rfl
  | _ => rfl

/-- What the manager does is heard the same, apart from acknowledgements. -/
theorem manage_withListeners (c : Http2Connection) {op : ManagerOp} (hping : ∀ data, op.announces ≠ some (.pingAck data))
    (hsettings : op.announces ≠ some .settingsAck) :
    (c.withListeners pings waits).manage op = (c.manage op).withListeners pings waits := by
  have hunheard : ∀ effect ∈ c.manager.newEffects op,
      (∀ data, effect ≠ .emitEvent (.pingAck data)) ∧ effect ≠ .emitEvent .settingsAck := by
    intro effect hmem
    have hbesides := c.manager.newEffects_besides op effect hmem
    refine ⟨fun data heq => ?_, fun heq => ?_⟩
    · rw [heq] at hbesides
      exact hbesides.elim (by simp [Effect.ending]) fun h => hping data (of_decide_eq_true h)
    · rw [heq] at hbesides
      exact hbesides.elim (by simp [Effect.ending]) fun h => hsettings (of_decide_eq_true h)
  have hfold : ∀ (effects : List Effect) (c : Http2Connection),
      (∀ effect ∈ effects, (∀ data, effect ≠ .emitEvent (.pingAck data)) ∧ effect ≠ .emitEvent .settingsAck) →
      effects.foldl onEffect (c.withListeners pings waits) = (effects.foldl onEffect c).withListeners pings waits := by
    intro effects
    induction effects with
    | nil => exact fun _ _ => rfl
    | cons effect effects ih =>
        intro c hall
        obtain ⟨hfirst, hrest⟩ := List.forall_mem_cons.mp hall
        rw [List.foldl_cons, List.foldl_cons, onEffect_withListeners pings waits c hfirst.1 hfirst.2, ih _ hrest]
  exact hfold _ { c with manager := c.manager.step op } hunheard

theorem executeRequest_withListeners (c : Http2Connection) (streamId : StreamId) (call : RequestCall) :
    (c.withListeners pings waits).executeRequest streamId call = (c.executeRequest streamId call).withListeners pings waits := by
  have hmanaged : ∀ (c : Http2Connection) (op : ManagerOp), op.announces = none →
      (c.withListeners pings waits).manage op = (c.manage op).withListeners pings waits := by
    intro c op hop
    exact manage_withListeners pings waits c (fun data h => by simp [hop] at h) (by simp [hop])
  rw [executeRequest_eq, executeRequest_eq, hmanaged c (.expectResponse streamId call.promise call.promise) rfl]
  have hblock : (c.withListeners pings waits).requestBlock call.req = c.requestBlock call.req := rfl
  have hclosing : ((c.withListeners pings waits).closing || (c.withListeners pings waits).closed) = (c.closing || c.closed) := rfl
  rw [hblock, hclosing]
  split
  · have hreleased := releaseSlot_withListeners pings waits { c with activeClientStreams := c.activeClientStreams.delete streamId }
    exact congrArg (fun c' : Http2Connection => c'.perform (.reject call.promise c.closingError)) hreleased
  · cases c.requestBlock call.req with
    | error e => rfl
    | ok payload =>
        dsimp only
        split
        · rfl
        · exact hmanaged ((c.manage (.expectResponse streamId call.promise call.promise)).sendFrame
            (.headers (requestHeadersFrame streamId (bodiless call.req) payload))) (.sendData streamId (call.req.body.getD []) true) rfl

theorem acquireSlot_withListeners (c : Http2Connection) (call : RequestCall) :
    (c.withListeners pings waits).acquireSlot call = (c.acquireSlot call).withListeners pings waits := by
  have hfree : (c.withListeners pings waits).slotFree = c.slotFree := rfl
  rw [acquireSlot, acquireSlot, hfree]
  split <;> rfl

theorem tearDown_withListeners (c : Http2Connection) (err : JsError) :
    (c.withListeners pings waits).tearDown err = (c.tearDown err).withListeners pings waits := by
  have hmanaged : (c.withListeners pings waits).manage (.abortAll err) = (c.manage (.abortAll err)).withListeners pings waits :=
    manage_withListeners pings waits c (fun _ h => by simp [ManagerOp.announces] at h) (by simp [ManagerOp.announces])
  rw [tearDown, tearDown, hmanaged]
  rfl

theorem handleFatal_withListeners (c : Http2Connection) (err : JsError) :
    (c.withListeners pings waits).handleFatal err = (c.handleFatal err).withListeners pings waits := by
  have hclosed : (c.withListeners pings waits).closed = c.closed := rfl
  have hreject : (c.withListeners pings waits).settingsAckReject = c.settingsAckReject := rfl
  rw [handleFatal, handleFatal, hclosed]
  split
  · rfl
  · dsimp only
    rw [hreject]
    cases c.settingsAckReject with
    | none => exact tearDown_withListeners pings waits { c with closing := true, settingsAckReject := none } err
    | some promise =>
        exact tearDown_withListeners pings waits ({ c with closing := true, settingsAckReject := none }.perform (.reject promise err)) err

/-- A step that neither registers a listener nor has one called looks at none. -/
theorem step_withListeners {s : ConnectionStep} (hack : c.acknowledged s = none) (hping : ∀ promise data, s ≠ .ping promise data)
    (hwait : ∀ promise timeoutMs, s ≠ .waitForSettingsAck promise timeoutMs) (htimeout : ∀ wait, s ≠ .settingsAckTimeout wait) :
    (c.withListeners pings waits).step s = (c.step s).withListeners pings waits := by
  cases s with
  | request call =>
      have hclosing : ((c.withListeners pings waits).closing || (c.withListeners pings waits).closed) = (c.closing || c.closed) := rfl
      simp only [step, request, hclosing]
      split
      · rfl
      · exact acquireSlot_withListeners pings waits c call
  | wake call =>
      have hwoken : (c.withListeners pings waits).woken = c.woken := rfl
      simp only [step, wake, hwoken]
      split
      · exact acquireSlot_withListeners pings waits { c with woken := c.woken.erase call } call
      · rfl
  | resume call =>
      have hgranted : (c.withListeners pings waits).granted = c.granted := rfl
      simp only [step, resume, hgranted]
      split
      · rw [openRequestStream_eq, openRequestStream_eq]
        exact executeRequest_withListeners pings waits
          { c with
            granted := c.granted.erase call
            manager := c.manager.openStream.1
            activeClientStreams := c.activeClientStreams.set c.manager.nextStreamId } c.manager.nextStreamId call
      · rfl
  | goaway lastStreamId errorCode debugData => rfl
  | close =>
      have hclosed : (c.withListeners pings waits).closed = c.closed := rfl
      simp only [step, close, hclosed]
      split
      · rfl
      · have htorn := tearDown_withListeners pings waits (c.goaway 0 0 []) (.http2 .connectionClosed)
        exact congrArg (fun c' : Http2Connection => c'.perform .closeTransport) htorn
  | ping promise data => exact absurd rfl (hping promise data)
  | waitForSettingsAck promise timeoutMs => exact absurd rfl (hwait promise timeoutMs)
  | settingsAckTimeout wait => exact absurd rfl (htimeout wait)
  | receiveFrame frame =>
      have hreads : (c.withListeners pings waits).reading = c.reading := rfl
      have hdispatches : (c.withListeners pings waits).manager.dispatch frame = c.manager.dispatch frame := rfl
      simp only [step, receiveFrame, hreads, hdispatches]
      split
      · rename_i hreading
        have hmanaged :
            (c.withListeners pings waits).manage (.dispatch frame) = (c.manage (.dispatch frame)).withListeners pings waits := by
          rw [acknowledged, if_pos hreading] at hack
          refine manage_withListeners pings waits c (fun data h => ?_) fun h => ?_
          · rw [h] at hack
            exact absurd hack (Option.some_ne_none _)
          · rw [h] at hack
            exact absurd hack (Option.some_ne_none _)
        split
        · rename_i m hdispatch
          have hsame : (c.withListeners pings waits).managed m = (c.managed m).withListeners pings waits := by
            rw [managed_of_dispatch hdispatch, ← hmanaged]
            exact managed_of_dispatch hdispatch
          rw [hsame]
          rfl
        · rename_i m err hdispatch
          have hsame : (c.withListeners pings waits).managed m = (c.managed m).withListeners pings waits := by
            rw [managed_of_dispatch hdispatch, ← hmanaged]
            exact managed_of_dispatch hdispatch
          rw [hsame, handleFatal_withListeners]
          rfl
      · rfl
  | readError err =>
      have hreads : (c.withListeners pings waits).reading = c.reading := rfl
      simp only [step, readError, hreads]
      split
      · rw [handleFatal_withListeners]
        rfl
      · rfl

end Http2Connection

/-! ### A connection with an emitter -/

/-- A closure that the connection registers: the handler of a `ping()`, or the `onAck` of a `waitForSettingsAck()`. -/
inductive ListenerClosure where
  | ping (handler : PingHandler)
  | settingsAck (wait : SettingsAckWait)
  deriving DecidableEq

/-- The connection, whose own lists stay empty, and the manager's emitter. -/
structure ListeningConnection where
  connection : Http2Connection
  emitter : InternalEventEmitter := {}
  /-- Every closure made so far. A listener is the place of its closure. -/
  closures : List ListenerClosure := []
  /-- The `onAck` closures whose timer is set. -/
  timers : List Listener := []

namespace ListeningConnection

variable {l : ListeningConnection}

def ping (l : ListeningConnection) (promise : Callback) (data : Nat) : ListeningConnection :=
  if l.connection.closed then { l with connection := l.connection.perform (.reject promise (.http2 .connectionClosed)) }
  else
    { l with
      emitter := l.emitter.on "pingAck" l.closures.length
      closures := l.closures ++ [.ping { promise, data }]
      connection := l.connection.sendFrame (.ping { flags := 0, streamId := 0, ack := false, opaqueData := data }) }

def waitForSettingsAck (l : ListeningConnection) (promise : Callback) (timeoutMs : Nat) : ListeningConnection :=
  { l with
    emitter := l.emitter.once "settingsAck" l.closures.length
    closures := l.closures ++ [.settingsAck { promise, timeoutMs }]
    timers := l.timers ++ [l.closures.length]
    connection := { l.connection with settingsAckReject := some promise } }

/-- The timer of a wait runs out. -/
def settingsAckTimeout (l : ListeningConnection) (wait : SettingsAckWait) : ListeningConnection :=
  match l.timers.find? fun timer => l.closures[timer]? = some (.settingsAck wait) with
  | some onAck =>
      { l with
        emitter := l.emitter.off "settingsAck" onAck
        timers := l.timers.erase onAck
        connection := { l.connection with settingsAckReject := none }.perform
          (.reject wait.promise (.http2 (.settingsAckTimeout wait.timeoutMs))) }
  | none => l

/-- `emit` calls an entry of its snapshot. -/
def hear (args : List Nat) (l : ListeningConnection) (record : StoredListener) : ListeningConnection :=
  let l : ListeningConnection := { l with emitter := l.emitter.beforeListener record }
  match l.closures[record.original]? with
  | some (.ping handler) =>
      if args = [handler.data] then
        { l with
          emitter := l.emitter.off "pingAck" record.original
          connection := l.connection.perform (.resolvePing handler.promise handler.data) }
      else l
  | some (.settingsAck wait) =>
      { l with
        emitter := l.emitter.off "settingsAck" record.original
        timers := l.timers.erase record.original
        connection := { l.connection with settingsAckReject := none }.perform (.resolveSettingsAck wait.promise) }
  | none => l

def emit (l : ListeningConnection) (event : String) (args : List Nat) : ListeningConnection :=
  (l.emitter.listeners event).foldl (hear args) l

/-- A step that is no call of a listener's own, with the acknowledgement it may bring. -/
def proceed (l : ListeningConnection) (s : ConnectionStep) : ListeningConnection :=
  let l' := { l with connection := l.connection.step s }
  match l.connection.acknowledged s with
  | some (event, args) => l'.emit event args
  | none => l'

def step (l : ListeningConnection) : ConnectionStep → ListeningConnection
  | .ping promise data => l.ping promise data
  | .waitForSettingsAck promise timeoutMs => l.waitForSettingsAck promise timeoutMs
  | .settingsAckTimeout wait => l.settingsAckTimeout wait
  | s => l.proceed s

def run (options : Http2Options) (s : List ConnectionStep) : ListeningConnection := s.foldl step ⟨{ options }, {}, [], []⟩

/-! ### The lists that the emitter stands for -/

def pingOf (l : ListeningConnection) (record : StoredListener) : Option PingHandler :=
  match l.closures[record.original]? with
  | some (.ping handler) => some handler
  | _ => none

def waitOf (l : ListeningConnection) (record : StoredListener) : Option SettingsAckWait :=
  match l.closures[record.original]? with
  | some (.settingsAck wait) => some wait
  | _ => none

def pings (l : ListeningConnection) : List PingHandler := (l.emitter.listeners "pingAck").filterMap l.pingOf

def waits (l : ListeningConnection) : List SettingsAckWait := (l.emitter.listeners "settingsAck").filterMap l.waitOf

/-- The connection with lists in the place of the emitter. -/
def listed (l : ListeningConnection) : Http2Connection := l.connection.withListeners l.pings l.waits

/-- The closures are registered as the source registers them, none twice, and a wait has its timer set as long as
it is registered. -/
structure Registered (l : ListeningConnection) : Prop where
  emitter : l.emitter.WellFormed
  pings : ∀ record ∈ l.emitter.listeners "pingAck", record.once = none ∧ (l.pingOf record).isSome
  waits : ∀ record ∈ l.emitter.listeners "settingsAck", record.once.isSome ∧ (l.waitOf record).isSome
  pingsNodup : ((l.emitter.listeners "pingAck").map StoredListener.original).Nodup
  waitsNodup : ((l.emitter.listeners "settingsAck").map StoredListener.original).Nodup
  timers : l.timers = (l.emitter.listeners "settingsAck").map StoredListener.original

theorem pingOf_eq_some {record : StoredListener} {handler : PingHandler} :
    l.pingOf record = some handler ↔ l.closures[record.original]? = some (.ping handler) := by
  rw [pingOf]
  split
  · rename_i other heq
    rw [heq]
    simp
  · rename_i hnot
    exact ⟨fun h => absurd h.symm (Option.some_ne_none handler), fun h => absurd h (hnot handler)⟩

theorem waitOf_eq_some {record : StoredListener} {wait : SettingsAckWait} :
    l.waitOf record = some wait ↔ l.closures[record.original]? = some (.settingsAck wait) := by
  rw [waitOf]
  split
  · rename_i other heq
    rw [heq]
    simp
  · rename_i hnot
    exact ⟨fun h => absurd h.symm (Option.some_ne_none wait), fun h => absurd h (hnot wait)⟩

/-! ### Registering -/

theorem pingOf_concat {l' : ListeningConnection} {closure : ListenerClosure} (hclosures : l'.closures = l.closures ++ [closure])
    {record : StoredListener} (h : (l.pingOf record).isSome) : l'.pingOf record = l.pingOf record := by
  obtain ⟨handler, hhandler⟩ := Option.isSome_iff_exists.mp h
  have hlt := (List.getElem?_eq_some_iff.mp (pingOf_eq_some.mp hhandler)).1
  rw [hhandler, pingOf_eq_some, hclosures, List.getElem?_append_left hlt]
  exact pingOf_eq_some.mp hhandler

theorem waitOf_concat {l' : ListeningConnection} {closure : ListenerClosure} (hclosures : l'.closures = l.closures ++ [closure])
    {record : StoredListener} (h : (l.waitOf record).isSome) : l'.waitOf record = l.waitOf record := by
  obtain ⟨wait, hwait⟩ := Option.isSome_iff_exists.mp h
  have hlt := (List.getElem?_eq_some_iff.mp (waitOf_eq_some.mp hwait)).1
  rw [hwait, waitOf_eq_some, hclosures, List.getElem?_append_left hlt]
  exact waitOf_eq_some.mp hwait

theorem Registered.pings_lt (h : l.Registered) : ∀ record ∈ l.emitter.listeners "pingAck", record.original < l.closures.length := by
  intro record hrecord
  obtain ⟨handler, hhandler⟩ := Option.isSome_iff_exists.mp (h.pings record hrecord).2
  exact (List.getElem?_eq_some_iff.mp (pingOf_eq_some.mp hhandler)).1

theorem Registered.waits_lt (h : l.Registered) : ∀ record ∈ l.emitter.listeners "settingsAck", record.original < l.closures.length := by
  intro record hrecord
  obtain ⟨wait, hwait⟩ := Option.isSome_iff_exists.mp (h.waits record hrecord).2
  exact (List.getElem?_eq_some_iff.mp (waitOf_eq_some.mp hwait)).1

theorem nodup_concat_fresh {records : List StoredListener} {record : StoredListener}
    (h : (records.map StoredListener.original).Nodup) (hlt : ∀ r ∈ records, r.original < record.original) :
    ((records ++ [record]).map StoredListener.original).Nodup := by
  rw [List.map_append, List.nodup_append]
  refine ⟨h, List.nodup_singleton _, fun listener hlistener other hother => ?_⟩
  obtain ⟨r, hr, hr'⟩ := List.mem_map.mp hlistener
  rw [List.map_singleton, List.mem_singleton] at hother
  rw [← hr', hother]
  exact (hlt r hr).ne

theorem on_registers {e : InternalEventEmitter} (h : e.WellFormed) (event : String) (listener : Listener) :
    (e.on event listener).WellFormed ∧ ∃ record : StoredListener, record.once = none ∧ record.original = listener ∧
      ∀ other, (e.on event listener).listeners other = if other = event then e.listeners event ++ [record] else e.listeners other := by
  have hcaptured : ∀ (set : SetRef) (id : Nat) own, (StoredListener.mk id none listener).once = some own → own = set :=
    fun _ _ own hown => absurd hown.symm (Option.some_ne_none own)
  obtain ⟨hwf, -, hlisteners⟩ := h.register event (fun _ _ => rfl) hcaptured
  exact ⟨hwf, _, rfl, rfl, hlisteners⟩

theorem once_registers {e : InternalEventEmitter} (h : e.WellFormed) (event : String) (listener : Listener) :
    (e.once event listener).WellFormed ∧ ∃ record : StoredListener, record.once.isSome ∧ record.original = listener ∧
      ∀ other, (e.once event listener).listeners other = if other = event then e.listeners event ++ [record] else e.listeners other := by
  have hcaptured : ∀ (set : SetRef) (id : Nat) own, (StoredListener.mk id (some set) listener).once = some own → own = set :=
    fun _ _ _ hown => (Option.some.inj hown).symm
  obtain ⟨hwf, -, hlisteners⟩ := h.register event (fun _ _ => rfl) hcaptured
  exact ⟨hwf, _, rfl, rfl, hlisteners⟩

theorem filterMap_congr_pings (h : l.Registered) {l' : ListeningConnection} {closure : ListenerClosure}
    (hclosures : l'.closures = l.closures ++ [closure]) : (l.emitter.listeners "pingAck").filterMap l'.pingOf = l.pings :=
  List.filterMap_congr fun record hrecord => pingOf_concat hclosures (h.pings record hrecord).2

theorem filterMap_congr_waits (h : l.Registered) {l' : ListeningConnection} {closure : ListenerClosure}
    (hclosures : l'.closures = l.closures ++ [closure]) : (l.emitter.listeners "settingsAck").filterMap l'.waitOf = l.waits :=
  List.filterMap_congr fun record hrecord => waitOf_concat hclosures (h.waits record hrecord).2

/-- The emitter has a new closure registered last for its event. -/
structure Registers (l : ListeningConnection) (event : String) (closure : ListenerClosure) (record : StoredListener)
    (l' : ListeningConnection) : Prop where
  emitter : l'.emitter.WellFormed
  closures : l'.closures = l.closures ++ [closure]
  original : record.original = l.closures.length
  listeners : ∀ other, l'.emitter.listeners other =
    if other = event then l.emitter.listeners event ++ [record] else l.emitter.listeners other

theorem Registered.pinged (h : l.Registered) {handler : PingHandler} {record : StoredListener} {l' : ListeningConnection}
    (hnew : Registers l "pingAck" (.ping handler) record l') (honce : record.once = none) (htimers : l'.timers = l.timers) :
    l'.Registered ∧ l'.pings = l.pings ++ [handler] ∧ l'.waits = l.waits := by
  have hpings : l'.emitter.listeners "pingAck" = l.emitter.listeners "pingAck" ++ [record] := (hnew.listeners "pingAck").trans (if_pos rfl)
  have hwaits : l'.emitter.listeners "settingsAck" = l.emitter.listeners "settingsAck" :=
    (hnew.listeners "settingsAck").trans (if_neg (by decide))
  have hrecord : l'.pingOf record = some handler := by
    rw [pingOf_eq_some, hnew.closures, hnew.original]
    exact List.getElem?_concat_length
  refine ⟨⟨hnew.emitter, ?_, ?_, ?_, ?_, ?_⟩, ?_, ?_⟩
  · rw [hpings]
    refine List.forall_mem_append.mpr ⟨fun r hr => ?_, fun r hr => ?_⟩
    · exact ⟨(h.pings r hr).1, (congrArg Option.isSome (pingOf_concat hnew.closures (h.pings r hr).2)).trans (h.pings r hr).2⟩
    · rw [List.mem_singleton.mp hr]
      exact ⟨honce, congrArg Option.isSome hrecord⟩
  · rw [hwaits]
    intro r hr
    exact ⟨(h.waits r hr).1, (congrArg Option.isSome (waitOf_concat hnew.closures (h.waits r hr).2)).trans (h.waits r hr).2⟩
  · rw [hpings]
    exact nodup_concat_fresh h.pingsNodup fun r hr => hnew.original.symm ▸ h.pings_lt r hr
  · rw [hwaits]
    exact h.waitsNodup
  · rw [hwaits, htimers, h.timers]
  · rw [ListeningConnection.pings, hpings, List.filterMap_append, filterMap_congr_pings h hnew.closures, List.filterMap_cons_some hrecord]
    rfl
  · rw [ListeningConnection.waits, hwaits, filterMap_congr_waits h hnew.closures]

theorem Registered.awaited (h : l.Registered) {wait : SettingsAckWait} {record : StoredListener} {l' : ListeningConnection}
    (hnew : Registers l "settingsAck" (.settingsAck wait) record l') (honce : record.once.isSome)
    (htimers : l'.timers = l.timers ++ [record.original]) :
    l'.Registered ∧ l'.pings = l.pings ∧ l'.waits = l.waits ++ [wait] := by
  have hpings : l'.emitter.listeners "pingAck" = l.emitter.listeners "pingAck" := (hnew.listeners "pingAck").trans (if_neg (by decide))
  have hwaits : l'.emitter.listeners "settingsAck" = l.emitter.listeners "settingsAck" ++ [record] :=
    (hnew.listeners "settingsAck").trans (if_pos rfl)
  have hrecord : l'.waitOf record = some wait := by
    rw [waitOf_eq_some, hnew.closures, hnew.original]
    exact List.getElem?_concat_length
  refine ⟨⟨hnew.emitter, ?_, ?_, ?_, ?_, ?_⟩, ?_, ?_⟩
  · rw [hpings]
    intro r hr
    exact ⟨(h.pings r hr).1, (congrArg Option.isSome (pingOf_concat hnew.closures (h.pings r hr).2)).trans (h.pings r hr).2⟩
  · rw [hwaits]
    refine List.forall_mem_append.mpr ⟨fun r hr => ?_, fun r hr => ?_⟩
    · exact ⟨(h.waits r hr).1, (congrArg Option.isSome (waitOf_concat hnew.closures (h.waits r hr).2)).trans (h.waits r hr).2⟩
    · rw [List.mem_singleton.mp hr]
      exact ⟨honce, congrArg Option.isSome hrecord⟩
  · rw [hpings]
    exact h.pingsNodup
  · rw [hwaits]
    exact nodup_concat_fresh h.waitsNodup fun r hr => hnew.original.symm ▸ h.waits_lt r hr
  · rw [hwaits, htimers, h.timers, List.map_append, List.map_singleton]
  · rw [ListeningConnection.pings, hpings, filterMap_congr_pings h hnew.closures]
  · rw [ListeningConnection.waits, hwaits, List.filterMap_append, filterMap_congr_waits h hnew.closures, List.filterMap_cons_some hrecord]
    rfl

/-- The relation of the two levels. -/
structure Stands (l : ListeningConnection) (c : Http2Connection) : Prop where
  registered : l.Registered
  listed : l.listed = c

theorem ping_stands (h : l.Registered) (promise : Callback) (data : Nat) : Stands (l.ping promise data) (l.listed.ping promise data) := by
  have hlisted : l.listed.closed = l.connection.closed := rfl
  rw [ListeningConnection.ping, Http2Connection.ping, hlisted]
  split
  · exact ⟨⟨h.emitter, h.pings, h.waits, h.pingsNodup, h.waitsNodup, h.timers⟩, rfl⟩
  · obtain ⟨hwf, record, honce, horiginal, hlisteners⟩ := on_registers h.emitter "pingAck" l.closures.length
    have hnew : Registers l "pingAck" (.ping { promise, data }) record
        { l with
          emitter := l.emitter.on "pingAck" l.closures.length
          closures := l.closures ++ [.ping { promise, data }]
          connection := l.connection.sendFrame (.ping { flags := 0, streamId := 0, ack := false, opaqueData := data }) } :=
      ⟨hwf, rfl, horiginal, hlisteners⟩
    obtain ⟨hregistered, hpings, hwaits⟩ := h.pinged hnew honce rfl
    refine ⟨hregistered, ?_⟩
    rw [listed, hpings, hwaits]
    rfl

theorem waitForSettingsAck_stands (h : l.Registered) (promise : Callback) (timeoutMs : Nat) :
    Stands (l.waitForSettingsAck promise timeoutMs) (l.listed.waitForSettingsAck promise timeoutMs) := by
  obtain ⟨hwf, record, honce, horiginal, hlisteners⟩ := once_registers h.emitter "settingsAck" l.closures.length
  have htimers : (l.waitForSettingsAck promise timeoutMs).timers = l.timers ++ [record.original] := by rw [horiginal]; rfl
  have hnew : Registers l "settingsAck" (.settingsAck { promise, timeoutMs }) record (l.waitForSettingsAck promise timeoutMs) :=
    ⟨hwf, rfl, horiginal, hlisteners⟩
  obtain ⟨hregistered, hpings, hwaits⟩ := h.awaited hnew honce htimers
  refine ⟨hregistered, ?_⟩
  rw [listed, hpings, hwaits]
  rfl

/-! ### Taking closures off -/

/-- The emitter has one entry of an event less. -/
structure TakesOff (l : ListeningConnection) (event : String) (pre post : List StoredListener) (l' : ListeningConnection) : Prop where
  emitter : l'.emitter.WellFormed
  closures : l'.closures = l.closures
  own : l'.emitter.listeners event = pre ++ post
  others : ∀ other ∈ ["pingAck", "settingsAck"], other ≠ event → l'.emitter.listeners other = l.emitter.listeners other

theorem pingOf_congr {l' : ListeningConnection} (hclosures : l'.closures = l.closures) : l'.pingOf = l.pingOf := by
  funext record
  rw [pingOf, pingOf, hclosures]

theorem waitOf_congr {l' : ListeningConnection} (hclosures : l'.closures = l.closures) : l'.waitOf = l.waitOf := by
  funext record
  rw [waitOf, waitOf, hclosures]

variable {pre post : List StoredListener} {record : StoredListener} {l' : ListeningConnection}

/-- Of the entries of a well-registered event `off` takes the one it is called for. -/
theorem eraseP_original (hnodup : ((pre ++ record :: post).map StoredListener.original).Nodup) :
    (pre ++ record :: post).eraseP (fun entry => entry.original = record.original) = pre ++ post := by
  rw [List.map_append, List.nodup_append] at hnodup
  have hother : ∀ entry ∈ pre, ¬ decide (entry.original = record.original) = true := by
    intro entry hentry heq
    exact hnodup.2.2 _ (List.mem_map_of_mem hentry) _ (List.mem_map_of_mem List.mem_cons_self) (of_decide_eq_true heq)
  rw [List.eraseP_append_right _ hother]
  exact congrArg (pre ++ ·) (List.eraseP_cons_of_pos (decide_eq_true rfl))

theorem Registered.unpinged (h : l.Registered) (hsplit : l.emitter.listeners "pingAck" = pre ++ record :: post)
    (hoff : TakesOff l "pingAck" pre post l') (htimers : l'.timers = l.timers) : l'.Registered := by
  have hpings : l'.emitter.listeners "pingAck" = pre ++ post := hoff.own
  have hwaits : l'.emitter.listeners "settingsAck" = l.emitter.listeners "settingsAck" := hoff.others _ (by decide) (by decide)
  have hsublist : (pre ++ post).Sublist (l.emitter.listeners "pingAck") :=
    hsplit.symm ▸ List.Sublist.append_left (List.sublist_cons_self record post) pre
  refine ⟨hoff.emitter, ?_, ?_, ?_, ?_, ?_⟩
  · rw [hpings, pingOf_congr hoff.closures]
    exact fun r hr => h.pings r (hsublist.subset hr)
  · rw [hwaits, waitOf_congr hoff.closures]
    exact h.waits
  · rw [hpings]
    exact h.pingsNodup.sublist (hsublist.map StoredListener.original)
  · rw [hwaits]
    exact h.waitsNodup
  · rw [hwaits, htimers, h.timers]

theorem Registered.unawaited (h : l.Registered) (hsplit : l.emitter.listeners "settingsAck" = pre ++ record :: post)
    (hoff : TakesOff l "settingsAck" pre post l') (htimers : l'.timers = l.timers.erase record.original) : l'.Registered := by
  have hpings : l'.emitter.listeners "pingAck" = l.emitter.listeners "pingAck" := hoff.others _ (by decide) (by decide)
  have hwaits : l'.emitter.listeners "settingsAck" = pre ++ post := hoff.own
  have hsublist : (pre ++ post).Sublist (l.emitter.listeners "settingsAck") :=
    hsplit.symm ▸ List.Sublist.append_left (List.sublist_cons_self record post) pre
  refine ⟨hoff.emitter, ?_, ?_, ?_, ?_, ?_⟩
  · rw [hpings, pingOf_congr hoff.closures]
    exact h.pings
  · rw [hwaits, waitOf_congr hoff.closures]
    exact fun r hr => h.waits r (hsublist.subset hr)
  · rw [hpings]
    exact h.pingsNodup
  · rw [hwaits]
    exact h.waitsNodup.sublist (hsublist.map StoredListener.original)
  · have hnodup := h.waitsNodup
    rw [hsplit, List.map_append, List.map_cons] at hnodup
    have hfresh : record.original ∉ pre.map StoredListener.original := fun hmem =>
      (List.nodup_append.mp hnodup).2.2 _ hmem _ List.mem_cons_self rfl
    rw [hwaits, htimers, h.timers, hsplit, List.map_append, List.map_cons, List.erase_append_right _ hfresh, List.erase_cons_head,
      List.map_append]

theorem off_takesOff (h : l.emitter.WellFormed) (event : String) (hsplit : l.emitter.listeners event = pre ++ record :: post)
    (hnodup : ((l.emitter.listeners event).map StoredListener.original).Nodup) (hclosures : l'.closures = l.closures)
    (hemitter : l'.emitter = l.emitter.off event record.original) : TakesOff l event pre post l' := by
  obtain ⟨hwf, -, hlisteners⟩ := h.off event record.original
  rw [hsplit] at hnodup
  rw [hsplit, eraseP_original hnodup] at hlisteners
  refine ⟨hemitter ▸ hwf, hclosures, ?_, fun other _ hother => ?_⟩
  · rw [hemitter, hlisteners, if_pos rfl]
  · rw [hemitter, hlisteners, if_neg hother]

theorem TakesOff.pings_eq (hoff : TakesOff l "settingsAck" pre post l') : l'.pings = l.pings := by
  rw [ListeningConnection.pings, hoff.others _ (by decide) (by decide), pingOf_congr hoff.closures]
  rfl

theorem TakesOff.waits_eq (hoff : TakesOff l "pingAck" pre post l') : l'.waits = l.waits := by
  rw [ListeningConnection.waits, hoff.others _ (by decide) (by decide), waitOf_congr hoff.closures]
  rfl

theorem settingsAckTimeout_stands (h : l.Registered) (wait : SettingsAckWait) :
    Stands (l.settingsAckTimeout wait) (l.listed.settingsAckTimeout wait) := by
  have hfind : l.timers.find? (fun timer => l.closures[timer]? = some (.settingsAck wait)) =
      ((l.emitter.listeners "settingsAck").find? fun record => l.waitOf record = some wait).map StoredListener.original := by
    rw [h.timers, List.find?_map]
    refine congrArg (Option.map StoredListener.original) (congrArg (fun p => List.find? p _) (funext fun record => ?_))
    exact decide_eq_decide.mpr waitOf_eq_some.symm
  have hlisted : l.listed.settingsAckWaits = (l.emitter.listeners "settingsAck").filterMap l.waitOf := rfl
  rw [Http2Connection.settingsAckTimeout, hlisted]
  cases hfound : (l.emitter.listeners "settingsAck").find? fun record => l.waitOf record = some wait with
  | none =>
      have habsent : wait ∉ (l.emitter.listeners "settingsAck").filterMap l.waitOf := by
        intro hmem
        obtain ⟨record, hrecord, hwait⟩ := List.mem_filterMap.mp hmem
        exact absurd (decide_eq_true hwait) (List.find?_eq_none.mp hfound record hrecord)
      rw [if_neg habsent, ListeningConnection.settingsAckTimeout, hfind, hfound]
      exact ⟨h, rfl⟩
  | some record =>
      obtain ⟨hfirst, pre, post, hsplit, hpre⟩ := List.find?_eq_some_iff_append.mp hfound
      have hwait := of_decide_eq_true hfirst
      have habsent : wait ∉ pre.filterMap l.waitOf := by
        intro hmem
        obtain ⟨earlier, hearlier, heq⟩ := List.mem_filterMap.mp hmem
        exact absurd heq (by simpa using hpre earlier hearlier)
      have hmem : wait ∈ (l.emitter.listeners "settingsAck").filterMap l.waitOf :=
        List.mem_filterMap.mpr ⟨record, hsplit ▸ List.mem_append_right pre List.mem_cons_self, hwait⟩
      have hexpired : l.settingsAckTimeout wait =
          { l with
            emitter := l.emitter.off "settingsAck" record.original
            timers := l.timers.erase record.original
            connection := { l.connection with settingsAckReject := none }.perform
              (.reject wait.promise (.http2 (.settingsAckTimeout wait.timeoutMs))) } := by
        rw [ListeningConnection.settingsAckTimeout, hfind, hfound]
        rfl
      have hoff : TakesOff l "settingsAck" pre post (l.settingsAckTimeout wait) :=
        off_takesOff h.emitter "settingsAck" hsplit h.waitsNodup (by rw [hexpired]) (by rw [hexpired])
      have hwaits : ((l.emitter.listeners "settingsAck").filterMap l.waitOf).erase wait = (pre ++ post).filterMap l.waitOf := by
        rw [hsplit, List.filterMap_append, List.filterMap_cons_some hwait, List.erase_append_right _ habsent, List.erase_cons_head,
          List.filterMap_append]
      refine ⟨h.unawaited hsplit hoff (by rw [hexpired]), ?_⟩
      rw [if_pos hmem, listed, hoff.pings_eq, ListeningConnection.waits, hoff.own, waitOf_congr hoff.closures, ← hwaits, hexpired]
      rfl

/-! ### Calling closures -/

/-- The handler of a ping takes itself off if the data is its own. -/
theorem hear_ping (h : l.Registered) (hsplit : l.emitter.listeners "pingAck" = pre ++ record :: post) (data : Nat) {handler : PingHandler}
    (hhandler : l.pingOf record = some handler) :
    handler.data ≠ data ∧ hear [data] l record = l ∨
      handler.data = data ∧ TakesOff l "pingAck" pre post (hear [data] l record) ∧ (hear [data] l record).timers = l.timers ∧
        (hear [data] l record).connection = l.connection.perform (.resolvePing handler.promise data) := by
  have hmem : record ∈ l.emitter.listeners "pingAck" := hsplit ▸ List.mem_append_right pre List.mem_cons_self
  have hbefore : l.emitter.beforeListener record = l.emitter := by
    rw [InternalEventEmitter.beforeListener, (h.pings record hmem).1]
  have hclosure : l.closures[record.original]? = some (.ping handler) := pingOf_eq_some.mp hhandler
  by_cases hdata : handler.data = data
  · have hheard : hear [data] l record =
        { l with
          emitter := l.emitter.off "pingAck" record.original
          connection := l.connection.perform (.resolvePing handler.promise data) } := by
      simp only [hear, hbefore, hclosure, hdata, if_pos]
    rw [hheard]
    exact .inr ⟨hdata, off_takesOff h.emitter "pingAck" hsplit h.pingsNodup rfl rfl, rfl, rfl⟩
  · refine .inl ⟨hdata, ?_⟩
    have hargs : ¬ [data] = [handler.data] := fun heq => hdata (List.cons.inj heq).1.symm
    simp only [hear, hbefore, hclosure, if_neg hargs]

/-- `onAck` takes itself off, and so does the wrapper around it. -/
theorem hear_settingsAck (h : l.Registered) (hsplit : l.emitter.listeners "settingsAck" = record :: post) {wait : SettingsAckWait}
    (hwait : l.waitOf record = some wait) :
    TakesOff l "settingsAck" [] post (hear [] l record) ∧ (hear [] l record).timers = l.timers.erase record.original ∧
      (hear [] l record).connection =
        { l.connection with settingsAckReject := none }.perform (.resolveSettingsAck wait.promise) := by
  have hmem : record ∈ l.emitter.listeners "settingsAck" := hsplit ▸ List.mem_cons_self
  have honce : record.once.isSome := (h.waits record hmem).1
  have hclosure : l.closures[record.original]? = some (.settingsAck wait) := waitOf_eq_some.mp hwait
  obtain ⟨hwf, -, hbefore⟩ := h.emitter.beforeListener record
  obtain ⟨hwf', -, hoff⟩ := hwf.off "settingsAck" record.original
  have hheard : hear [] l record =
      { l with
        emitter := (l.emitter.beforeListener record).off "settingsAck" record.original
        timers := l.timers.erase record.original
        connection := { l.connection with settingsAckReject := none }.perform (.resolveSettingsAck wait.promise) } := by
    simp only [hear, hclosure]
  have hnodup := h.waitsNodup
  rw [hsplit, List.map_cons, List.nodup_cons] at hnodup
  have hown : (l.emitter.beforeListener record).listeners "settingsAck" = post := by
    rw [hbefore, if_pos honce, hsplit, List.filter_cons_of_neg (by simp)]
    refine List.filter_eq_self.mpr fun entry hentry => decide_eq_true fun heq => ?_
    exact hnodup.1 (heq ▸ List.mem_map_of_mem hentry)
  rw [hheard]
  refine ⟨⟨hwf', rfl, ?_, fun other hother hne => ?_⟩, rfl, rfl⟩
  · rw [hoff, if_pos rfl, hown, List.nil_append]
    refine List.eraseP_of_forall_not fun entry hentry heq => ?_
    exact hnodup.1 (List.mem_map.mpr ⟨entry, hentry, of_decide_eq_true heq⟩)
  · rw [hoff, if_neg hne, hbefore, if_pos honce]
    have hpings : other = "pingAck" := by
      rcases List.mem_cons.mp hother with heq | hlast
      · exact heq
      · exact absurd (List.mem_singleton.mp hlast) hne
    refine List.filter_eq_self.mpr fun entry hentry => decide_eq_true fun heq => ?_
    rw [hpings, heq] at hentry
    rw [(h.pings record hentry).1] at honce
    exact absurd honce Bool.false_ne_true

/-- What `emit` makes of a PING that comes back. -/
theorem foldl_hear_ping (data : Nat) (records : List StoredListener) (h : l.Registered)
    (hsplit : l.emitter.listeners "pingAck" = pre ++ records) :
    (records.foldl (hear [data]) l).Registered ∧
      (records.foldl (hear [data]) l).pings =
        pre.filterMap l.pingOf ++ (records.filterMap l.pingOf).filter (fun handler => handler.data ≠ data) ∧
      (records.foldl (hear [data]) l).waits = l.waits ∧
      (records.foldl (hear [data]) l).connection =
        { l.connection with
          effects := l.connection.effects ++ ((records.filterMap l.pingOf).filter fun handler => handler.data = data).map
            fun handler => .resolvePing handler.promise data } := by
  induction records generalizing l pre with
  | nil =>
      rw [List.append_nil] at hsplit
      refine ⟨h, ?_, rfl, ?_⟩
      · rw [List.foldl_nil, ListeningConnection.pings, hsplit]
        exact (List.append_nil _).symm
      · rw [List.foldl_nil, List.filterMap_nil, List.filter_nil, List.map_nil, List.append_nil]
  | cons record records ih =>
      obtain ⟨handler, hhandler⟩ := Option.isSome_iff_exists.mp
        (h.pings record (hsplit ▸ List.mem_append_right pre List.mem_cons_self)).2
      rw [List.foldl_cons, List.filterMap_cons_some hhandler]
      rcases hear_ping h hsplit data hhandler with ⟨hdata, hsame⟩ | ⟨hdata, hoff, htimers, hconnection⟩
      · have hsplit' : l.emitter.listeners "pingAck" = (pre ++ [record]) ++ records := by rw [hsplit, List.append_assoc]; rfl
        obtain ⟨hregistered, hpings, hwaits, hconnection⟩ := ih h hsplit'
        have hkept : (handler :: records.filterMap l.pingOf).filter (fun handler => handler.data ≠ data) =
            handler :: (records.filterMap l.pingOf).filter fun handler => handler.data ≠ data :=
          List.filter_cons_of_pos (decide_eq_true hdata)
        have hunresolved : (handler :: records.filterMap l.pingOf).filter (fun handler => handler.data = data) =
            (records.filterMap l.pingOf).filter fun handler => handler.data = data :=
          List.filter_cons_of_neg fun h => hdata (of_decide_eq_true h)
        rw [hsame, hkept, hunresolved]
        refine ⟨hregistered, ?_, hwaits, hconnection⟩
        rw [hpings, List.filterMap_append, List.filterMap_cons_some hhandler, List.append_assoc]
        rfl
      · obtain ⟨hregistered, hpings, hwaits, hconnection'⟩ := ih (h.unpinged hsplit hoff htimers) hoff.own
        have hdropped : (handler :: records.filterMap l.pingOf).filter (fun handler => handler.data ≠ data) =
            (records.filterMap l.pingOf).filter fun handler => handler.data ≠ data :=
          List.filter_cons_of_neg fun h => of_decide_eq_true h hdata
        have hresolved : (handler :: records.filterMap l.pingOf).filter (fun handler => handler.data = data) =
            handler :: (records.filterMap l.pingOf).filter fun handler => handler.data = data :=
          List.filter_cons_of_pos (decide_eq_true hdata)
        rw [pingOf_congr hoff.closures] at hpings hconnection'
        rw [hdropped, hresolved, hconnection', hconnection]
        refine ⟨hregistered, hpings, hwaits.trans hoff.waits_eq, ?_⟩
        simp only [Http2Connection.perform, List.map_cons, List.append_assoc, List.singleton_append]

/-- What `emit` makes of an acknowledgement of the settings. -/
theorem foldl_hear_settingsAck (records : List StoredListener) (h : l.Registered)
    (hall : l.emitter.listeners "settingsAck" = records) :
    (records.foldl (hear []) l).Registered ∧ (records.foldl (hear []) l).pings = l.pings ∧ (records.foldl (hear []) l).waits = [] ∧
      (records.foldl (hear []) l).connection =
        { l.connection with
          settingsAckReject := if records = [] then l.connection.settingsAckReject else none
          effects := l.connection.effects ++ (records.filterMap l.waitOf).map fun wait => .resolveSettingsAck wait.promise } := by
  induction records generalizing l with
  | nil =>
      refine ⟨h, rfl, ?_, ?_⟩
      · rw [List.foldl_nil, ListeningConnection.waits, hall, List.filterMap_nil]
      · rw [List.foldl_nil, List.filterMap_nil, List.map_nil, List.append_nil, if_pos rfl]
  | cons record records ih =>
      obtain ⟨wait, hwait⟩ := Option.isSome_iff_exists.mp (h.waits record (hall ▸ List.mem_cons_self)).2
      obtain ⟨hoff, htimers, hconnection⟩ := hear_settingsAck h hall hwait
      have hsplit : l.emitter.listeners "settingsAck" = [] ++ record :: records := hall
      obtain ⟨hregistered, hpings, hwaits, hconnection'⟩ := ih (h.unawaited hsplit hoff htimers) hoff.own
      rw [waitOf_congr hoff.closures] at hconnection'
      rw [List.foldl_cons, List.filterMap_cons_some hwait, if_neg (List.cons_ne_nil _ _), hconnection', hconnection]
      refine ⟨hregistered, hpings.trans hoff.pings_eq, hwaits, ?_⟩
      simp only [Http2Connection.perform, List.map_cons, List.append_assoc, List.singleton_append, ite_self]

/-- The connection's own lists are empty. -/
def Unlisted (l : ListeningConnection) : Prop := l.connection.pingHandlers = [] ∧ l.connection.settingsAckWaits = []

theorem Unlisted.withListeners (h : l.Unlisted) : l.connection.withListeners [] [] = l.connection := by
  obtain ⟨hpings, hwaits⟩ := h
  rw [Http2Connection.withListeners, ← hpings, ← hwaits]

theorem Registered.withConnection (h : l.Registered) (connection : Http2Connection) : { l with connection }.Registered :=
  ⟨h.emitter, h.pings, h.waits, h.pingsNodup, h.waitsNodup, h.timers⟩

/-- The connection has a new event to tell the listeners of. -/
def announced (l : ListeningConnection) (event : Event) : ListeningConnection :=
  { l with
    connection := { l.connection with
      manager := l.connection.manager.emitEvent event
      reading := !l.connection.closed }.perform (.manager (.emitEvent event)) }

theorem Registered.announced (h : l.Registered) (event : Event) : (l.announced event).Registered := h.withConnection _

theorem Unlisted.announced (h : l.Unlisted) (event : Event) : (l.announced event).Unlisted := h

theorem receiveFrame_pingAck (c : Http2Connection) (hreading : c.reading = true) {frame : PingFrame} (hack : frame.ack = true) :
    c.receiveFrame (.ping frame) =
      ({ c with
        manager := c.manager.emitEvent (.pingAck frame.opaqueData)
        reading := !c.closed }.perform (.manager (.emitEvent (.pingAck frame.opaqueData)))).onPingAck frame.opaqueData := by
  have hdispatch : c.manager.dispatch (.ping frame) = (c.manager.emitEvent (.pingAck frame.opaqueData), none) := by
    simp only [Manager.dispatch, Manager.handlePing, if_pos hack]
  have hheard : c.managed (c.manager.emitEvent (.pingAck frame.opaqueData)) =
      { c with manager := c.manager.emitEvent (.pingAck frame.opaqueData) }.onEffect (.emitEvent (.pingAck frame.opaqueData)) := by
    rw [Http2Connection.managed, Manager.emitEvent, Manager.perform, List.drop_left, List.foldl_cons, List.foldl_nil]
  rw [Http2Connection.receiveFrame, if_pos hreading, hdispatch]
  dsimp only
  rw [hheard]
  rfl

theorem receiveFrame_settingsAck (c : Http2Connection) (hreading : c.reading = true) {frame : SettingsFrame} (hack : frame.ack = true) :
    c.receiveFrame (.settings frame) =
      ({ c with
        manager := c.manager.emitEvent .settingsAck
        reading := !c.closed }.perform (.manager (.emitEvent .settingsAck))).onSettingsAck := by
  have hdispatch : c.manager.dispatch (.settings frame) = (c.manager.emitEvent .settingsAck, none) := by
    simp only [Manager.dispatch, Manager.handleSettings, if_pos hack]
  have hheard : c.managed (c.manager.emitEvent .settingsAck) =
      ({ c with manager := c.manager.emitEvent .settingsAck }.perform (.manager (.emitEvent .settingsAck))).onSettingsAck := by
    rw [Http2Connection.managed, Manager.emitEvent, Manager.perform, List.drop_left, List.foldl_cons, List.foldl_nil]
    rfl
  have hreads : ∀ c : Http2Connection,
      { c.onSettingsAck with reading := !c.onSettingsAck.closed } = { c with reading := !c.closed }.onSettingsAck := by
    intro c
    rw [Http2Connection.onSettingsAck, Http2Connection.onSettingsAck]
    split <;> rfl
  rw [Http2Connection.receiveFrame, if_pos hreading, hdispatch]
  dsimp only
  rw [hheard]
  exact hreads _

theorem emitPing_stands (h : l.Registered) (hunlisted : l.Unlisted) (data : Nat) :
    Stands (l.emit "pingAck" [data]) (l.listed.onPingAck data) ∧ (l.emit "pingAck" [data]).Unlisted := by
  have hsplit : l.emitter.listeners "pingAck" = [] ++ l.emitter.listeners "pingAck" := rfl
  obtain ⟨hregistered, hpings, hwaits, hconnection⟩ := foldl_hear_ping data (l.emitter.listeners "pingAck") h hsplit
  refine ⟨⟨hregistered, ?_⟩, ?_⟩
  · rw [listed, emit, hpings, hwaits, hconnection]
    rfl
  · rw [Unlisted, emit, hconnection]
    exact hunlisted

theorem emitSettingsAck_stands (h : l.Registered) (hunlisted : l.Unlisted) :
    Stands (l.emit "settingsAck" []) l.listed.onSettingsAck ∧ (l.emit "settingsAck" []).Unlisted := by
  obtain ⟨hregistered, hpings, hwaits, hconnection⟩ := foldl_hear_settingsAck (l.emitter.listeners "settingsAck") h rfl
  refine ⟨⟨hregistered, ?_⟩, ?_⟩
  · have hlisted : l.listed.settingsAckWaits = (l.emitter.listeners "settingsAck").filterMap l.waitOf := rfl
    rw [listed, emit, hpings, hwaits, hconnection, Http2Connection.onSettingsAck, hlisted]
    cases hlisteners : l.emitter.listeners "settingsAck" with
    | nil =>
        rw [hlisteners] at hlisted
        rw [List.filterMap_nil, if_pos rfl, if_pos rfl, List.map_nil, List.append_nil]
        exact congrArg (l.connection.withListeners l.pings) hlisted.symm
    | cons record records =>
        obtain ⟨wait, hwait⟩ := Option.isSome_iff_exists.mp (h.waits record (hlisteners ▸ List.mem_cons_self)).2
        rw [List.filterMap_cons_some hwait, if_neg (List.cons_ne_nil _ _), if_neg (List.cons_ne_nil _ _)]
        rfl
  · rw [Unlisted, emit, hconnection]
    exact hunlisted

theorem onPingAck_of_none {c : Http2Connection} (h : c.pingHandlers = []) (data : Nat) : c.onPingAck data = c := by
  rw [Http2Connection.onPingAck, h, List.filter_nil, List.filter_nil, List.map_nil, List.append_nil, ← h]

theorem onSettingsAck_of_none {c : Http2Connection} (h : c.settingsAckWaits = []) : c.onSettingsAck = c := by
  rw [Http2Connection.onSettingsAck, if_pos h]

theorem receivePing_stands (h : l.Registered) (hunlisted : l.Unlisted) (hreading : l.connection.reading = true) {frame : PingFrame}
    (hack : frame.ack = true) :
    Stands (l.step (.receiveFrame (.ping frame))) (l.listed.receiveFrame (.ping frame)) ∧
      (l.step (.receiveFrame (.ping frame))).Unlisted := by
  have hquiet : l.connection.receiveFrame (.ping frame) = (l.announced (.pingAck frame.opaqueData)).connection := by
    rw [receiveFrame_pingAck l.connection hreading hack]
    exact onPingAck_of_none (hunlisted.announced (.pingAck frame.opaqueData)).1 frame.opaqueData
  have hstep : l.step (.receiveFrame (.ping frame)) = (l.announced (.pingAck frame.opaqueData)).emit "pingAck" [frame.opaqueData] := by
    simp only [step, proceed, Http2Connection.acknowledged, if_pos hreading, ManagerOp.announces, if_pos hack, Http2Connection.step, hquiet]
    rfl
  have hlisted : l.listed.receiveFrame (.ping frame) =
      (l.announced (.pingAck frame.opaqueData)).listed.onPingAck frame.opaqueData :=
    receiveFrame_pingAck l.listed hreading hack
  rw [hstep, hlisted]
  exact emitPing_stands (h.announced _) (hunlisted.announced _) frame.opaqueData

theorem receiveSettingsAck_stands (h : l.Registered) (hunlisted : l.Unlisted) (hreading : l.connection.reading = true)
    {frame : SettingsFrame} (hack : frame.ack = true) :
    Stands (l.step (.receiveFrame (.settings frame))) (l.listed.receiveFrame (.settings frame)) ∧
      (l.step (.receiveFrame (.settings frame))).Unlisted := by
  have hquiet : l.connection.receiveFrame (.settings frame) = (l.announced .settingsAck).connection := by
    rw [receiveFrame_settingsAck l.connection hreading hack]
    exact onSettingsAck_of_none (hunlisted.announced .settingsAck).2
  have hstep : l.step (.receiveFrame (.settings frame)) = (l.announced .settingsAck).emit "settingsAck" [] := by
    simp only [step, proceed, Http2Connection.acknowledged, if_pos hreading, ManagerOp.announces, if_pos hack, Http2Connection.step, hquiet]
    rfl
  have hlisted : l.listed.receiveFrame (.settings frame) = (l.announced .settingsAck).listed.onSettingsAck :=
    receiveFrame_settingsAck l.listed hreading hack
  rw [hstep, hlisted]
  exact emitSettingsAck_stands (h.announced _) (hunlisted.announced _)

/-! ### The emitter in execution -/

/-- With nothing left running, the emitter comes from one state to the other by actions of the code. -/
def Executes (emitter emitter' : InternalEventEmitter) : Prop :=
  ∀ x : Execution Nat, x.running = [] → x.emitter = emitter → ∃ actions : List (Action Nat),
    (actions.foldl Execution.step x).running = [] ∧ (actions.foldl Execution.step x).emitter = emitter'

theorem Executes.refl (emitter : InternalEventEmitter) : Executes emitter emitter :=
  fun _ hrunning hemitter => ⟨[], hrunning, hemitter⟩

/-- Between two entries only the listener acts, and it takes itself off or does nothing. -/
theorem hear_acts (args : List Nat) (l : ListeningConnection) (record : StoredListener) : ∃ actions : List (Action Nat),
    ∀ x : Execution Nat, x.emitter = l.emitter.beforeListener record →
      (actions.foldl Execution.step x).running = x.running ∧ (actions.foldl Execution.step x).emitter = (hear args l record).emitter := by
  cases hclosure : l.closures[record.original]? with
  | none =>
      refine ⟨[], fun x hx => ⟨rfl, ?_⟩⟩
      simp only [hear, hclosure, List.foldl_nil, hx]
  | some closure =>
      cases closure with
      | ping handler =>
          by_cases hargs : args = [handler.data]
          · refine ⟨[.off "pingAck" record.original], fun x hx => ⟨rfl, ?_⟩⟩
            simp only [hear, hclosure, if_pos hargs, List.foldl_cons, List.foldl_nil, Execution.step, hx]
          · refine ⟨[], fun x hx => ⟨rfl, ?_⟩⟩
            simp only [hear, hclosure, if_neg hargs, List.foldl_nil, hx]
      | settingsAck wait =>
          refine ⟨[.off "settingsAck" record.original], fun x hx => ⟨rfl, ?_⟩⟩
          simp only [hear, hclosure, List.foldl_cons, List.foldl_nil, Execution.step, hx]

/-- The loop of `emit` over what is left of its snapshot. -/
theorem foldl_hear_executes (args : List Nat) (records : List StoredListener) (l : ListeningConnection) (x : Execution Nat) {emit : Nat}
    (hrunning : x.running = [⟨emit, args, records⟩]) (hemitter : x.emitter = l.emitter) : ∃ actions : List (Action Nat),
      (actions.foldl Execution.step x.next).running = [] ∧
        (actions.foldl Execution.step x.next).emitter = (records.foldl (hear args) l).emitter := by
  induction records generalizing l x with
  | nil =>
      refine ⟨[], ?_⟩
      simp only [List.foldl_nil, Execution.next, hrunning]
      exact ⟨trivial, hemitter⟩
  | cons record records ih =>
      have hnext : x.next = x.call emit args record records [] := by simp only [Execution.next, hrunning]
      obtain ⟨own, hown⟩ := hear_acts args l record
      have hcalled : (x.call emit args record records []).emitter = l.emitter.beforeListener record :=
        congrArg (·.beforeListener record) hemitter
      obtain ⟨hstays, hafter⟩ := hown _ hcalled
      obtain ⟨actions, hdone, hlast⟩ := ih (hear args l record) _ hstays hafter
      -- When the listener returns, the loop goes on.
      refine ⟨own ++ .listenerReturns :: actions, ?_⟩
      rw [hnext, List.foldl_append, List.foldl_cons]
      exact ⟨hdone, hlast⟩

theorem emit_executes (l : ListeningConnection) (event : String) (args : List Nat) : Executes l.emitter (l.emit event args).emitter := by
  intro x hrunning hemitter
  by_cases hentries : x.emitter.listeners event = []
  · refine ⟨[.emit event args], ?_⟩
    have hnone := hentries
    rw [hemitter] at hnone
    rw [List.foldl_cons, List.foldl_nil, Execution.step, Execution.emit_of_no_listeners hentries, emit, hnone]
    exact ⟨hrunning, hemitter⟩
  · have hstarted : (x.start event args).running = [⟨x.nextEmit, args, l.emitter.listeners event⟩] := by
      rw [Execution.start, hrunning, hemitter]
    obtain ⟨actions, hdone, hlast⟩ := foldl_hear_executes args _ l (x.start event args) hstarted hemitter
    refine ⟨.emit event args :: actions, ?_⟩
    rw [List.foldl_cons, Execution.step, Execution.emit_of_listeners hentries]
    exact ⟨hdone, hlast⟩

theorem step_executes (l : ListeningConnection) (s : ConnectionStep) : Executes l.emitter (l.step s).emitter := by
  have hproceeds : ∀ s, Executes l.emitter (l.proceed s).emitter := by
    intro s
    simp only [proceed]
    split
    · exact emit_executes { l with connection := l.connection.step s } _ _
    · exact .refl _
  cases s with
  | ping promise data =>
      simp only [step, ping]
      split
      · exact .refl _
      · exact fun x hrunning hemitter =>
          ⟨[.on "pingAck" l.closures.length], hrunning, congrArg (·.on "pingAck" l.closures.length) hemitter⟩
  | waitForSettingsAck promise timeoutMs =>
      exact fun x hrunning hemitter =>
        ⟨[.once "settingsAck" l.closures.length], hrunning, congrArg (·.once "settingsAck" l.closures.length) hemitter⟩
  | settingsAckTimeout wait =>
      simp only [step, settingsAckTimeout]
      split
      · rename_i onAck _
        exact fun x hrunning hemitter => ⟨[.off "settingsAck" onAck], hrunning, congrArg (·.off "settingsAck" onAck) hemitter⟩
      · exact .refl _
  | _ => exact hproceeds _

theorem run_executes (options : Http2Options) (s : List ConnectionStep) : ∃ actions : List (Action Nat),
    (Execution.run actions).running = [] ∧ (Execution.run actions).emitter = (run options s).emitter := by
  induction s using List.reverseRecOn with
  | nil => exact ⟨[], rfl, rfl⟩
  | append_singleton s a ih =>
      obtain ⟨actions, hrunning, hemitter⟩ := ih
      obtain ⟨more, hdone, hlast⟩ := step_executes (run options s) a _ hrunning hemitter
      refine ⟨actions ++ more, ?_⟩
      rw [Execution.run, List.foldl_append, run, List.foldl_concat]
      exact ⟨hdone, hlast⟩

/-! ### Whole runs -/

/-- The step is no business of a listener. -/
theorem unheard_stands (h : l.Registered) (hunlisted : l.Unlisted) {s : ConnectionStep} (hack : l.connection.acknowledged s = none)
    (hping : ∀ promise data, s ≠ .ping promise data) (hwait : ∀ promise timeoutMs, s ≠ .waitForSettingsAck promise timeoutMs)
    (htimeout : ∀ wait, s ≠ .settingsAckTimeout wait) :
    Stands (l.step s) (l.listed.step s) ∧ (l.step s).Unlisted := by
  have hstep : l.step s = { l with connection := l.connection.step s } := by
    cases s with
    | ping promise data => exact absurd rfl (hping promise data)
    | waitForSettingsAck promise timeoutMs => exact absurd rfl (hwait promise timeoutMs)
    | settingsAckTimeout wait => exact absurd rfl (htimeout wait)
    | _ => simp only [step, proceed, hack]
  have hlisted : l.listed.step s = (l.connection.step s).withListeners l.pings l.waits :=
    Http2Connection.step_withListeners l.pings l.waits hack hping hwait htimeout
  have hempty : l.connection.step s = (l.connection.step s).withListeners [] [] := by
    have hsame := Http2Connection.step_withListeners [] [] hack hping hwait htimeout
    rw [hunlisted.withListeners] at hsame
    exact hsame
  rw [hstep, hlisted]
  refine ⟨⟨h.withConnection _, rfl⟩, ?_⟩
  rw [Unlisted, hempty]
  exact ⟨rfl, rfl⟩

theorem step_stands (h : l.Registered) (hunlisted : l.Unlisted) (s : ConnectionStep) :
    Stands (l.step s) (l.listed.step s) ∧ (l.step s).Unlisted := by
  cases s with
  | ping promise data =>
      refine ⟨ping_stands h promise data, ?_⟩
      simp only [step, ping]
      split <;> exact hunlisted
  | waitForSettingsAck promise timeoutMs => exact ⟨waitForSettingsAck_stands h promise timeoutMs, hunlisted⟩
  | settingsAckTimeout wait =>
      refine ⟨settingsAckTimeout_stands h wait, ?_⟩
      simp only [step, settingsAckTimeout]
      split <;> exact hunlisted
  | receiveFrame frame =>
      cases hack : l.connection.acknowledged (.receiveFrame frame) with
      | none => exact unheard_stands h hunlisted hack (fun _ _ => by simp) (fun _ _ => by simp) fun _ => by simp
      | some heard =>
          rw [Http2Connection.acknowledged] at hack
          split at hack
          · rename_i hreading
            cases frame with
            | ping frame =>
                cases hflag : frame.ack with
                | true => exact receivePing_stands h hunlisted hreading hflag
                | false => simp [ManagerOp.announces, hflag] at hack
            | settings frame =>
                cases hflag : frame.ack with
                | true => exact receiveSettingsAck_stands h hunlisted hreading hflag
                | false => simp [ManagerOp.announces, hflag] at hack
            | _ => simp [ManagerOp.announces] at hack
          · exact absurd hack.symm (Option.some_ne_none heard)
  | _ => exact unheard_stands h hunlisted rfl (fun _ _ => by simp) (fun _ _ => by simp) fun _ => by simp

theorem registered_new (options : Http2Options) : (run options []).Registered where
  emitter := InternalEventEmitter.wellFormed_new
  pings := fun _ hrecord => absurd hrecord List.not_mem_nil
  waits := fun _ hrecord => absurd hrecord List.not_mem_nil
  pingsNodup := List.nodup_nil
  waitsNodup := List.nodup_nil
  timers := rfl

/-- The connection with the emitter does what the connection with the lists does, in every run. The listeners of
the emitter, which is in a state that it comes to in an execution, are the closures the lists hold, in their order. -/
theorem listening_refines (options : Http2Options) (s : List ConnectionStep) :
    (∃ actions : List (Action Nat),
        (Execution.run actions).running = [] ∧ (Execution.run actions).emitter = (run options s).emitter) ∧
      (run options s).Registered ∧ (run options s).listed = Http2Connection.run options s := by
  have hrun : (Stands (run options s) (Http2Connection.run options s)) ∧ (run options s).Unlisted := by
    induction s using List.reverseRecOn with
    | nil => exact ⟨⟨registered_new options, rfl⟩, rfl, rfl⟩
    | append_singleton s a ih =>
        obtain ⟨⟨hregistered, hlisted⟩, hunlisted⟩ := ih
        have hstep := step_stands hregistered hunlisted a
        rw [run, List.foldl_concat, Http2Connection.run_concat, ← hlisted]
        exact hstep
  exact ⟨run_executes options s, hrun.1.registered, hrun.1.listed⟩

end ListeningConnection

end BrowsercoreHttp2
