import Mathlib.Data.List.Induction
import Mathlib.Logic.Relation
import BrowsercoreHttp2.Stream.Manager

/-!
# What an operation does to the streams

`ManagedStream.Change` lists the changes a stream can undergo while it stays in the table. Every
operation leaves a table whose streams come from the table before it by such changes, except for the one
stream that `openStream` or a PUSH_PROMISE creates. A property of streams that holds of a new stream and
survives each change therefore holds of every stream in every run.

Both relations carry a scope. Only settings, window updates and `sendData` move the send side: elsewhere no
send window, no send queue and no limit on sending changes and no DATA frame goes out. Only header frames
collect header octets, only DATA frames are credited, only a GOAWAY is announced as one, and callbacks
come from `expectResponse` alone.
-/

namespace BrowsercoreHttp2

open Relation

/-- The stream and the length of a DATA frame that was sent. -/
def Effect.sentData : Effect → Option (StreamId × Nat)
  | .sendFrame (.data frame) => some (frame.streamId, frame.payload.length)
  | _ => none

/-- The part of a manager an operation may move, besides what any may. Queuing is the first half of sending. -/
inductive Scope where
  | quiet
  | queues
  | sends
  | collects
  | credits
  | departs
  | expects
  deriving DecidableEq

def ManagerOp.scope : ManagerOp → Scope
  | .dispatch (.settings _) | .dispatch (.windowUpdate _) | .sendData _ _ _ | .applyWindowUpdate _ _ => .sends
  | .dispatch (.headers _) | .dispatch (.pushPromise _) | .dispatch (.continuation _) => .collects
  | .dispatch (.data _) => .credits
  | .dispatch (.goaway _) => .departs
  | .expectResponse _ _ _ => .expects
  | _ => .quiet

/-- The effects that come from one kind of operation alone. -/
def Effect.allowedIn (scope : Scope) : Effect → Bool
  | .sendFrame (.data _) => scope = .sends
  | .sendFrame (.windowUpdate _) => scope = .credits
  | .emitEvent (.goaway _ _ _) => scope = .departs
  | _ => true

theorem Effect.sentData_of_allowedIn {scope : Scope} {effect : Effect} (h : effect.allowedIn scope = true) (hscope : scope ≠ .sends) :
    effect.sentData = none := by
  rw [sentData.eq_def]
  split
  · exact absurd (of_decide_eq_true h) hscope
  · rfl

theorem sentData_of_allAllowed {scope : Scope} {new : List Effect} (h : ∀ effect ∈ new, effect.allowedIn scope = true)
    (hscope : scope ≠ .sends) : new.filterMap Effect.sentData = [] :=
  List.filterMap_eq_nil_iff.mpr fun effect hmem => Effect.sentData_of_allowedIn (h effect hmem) hscope

inductive ManagedStream.Change : Scope → ManagedStream → ManagedStream → Prop
  | credited (st : ManagedStream) (size : Int) : Change .sends st { st with localWindow := { st.localWindow with size } }
  | queued {scope : Scope} (hscope : scope = .queues ∨ scope = .sends) (st : ManagedStream) (sendQueue : Bytes)
      (sendQueueEndStream : Bool) : Change scope st { st with sendQueue, sendQueueEndStream }
  | received {scope : Scope} (st : ManagedStream) (size : Int) (responseChunks : List Bytes) :
      Change scope st { st with remoteWindow := { st.remoteWindow with size }, responseChunks }
  | collected (st : ManagedStream) (pendingHeaderBytes : Bytes) : Change .collects st { st with pendingHeaderBytes }
  | decoded (st : ManagedStream) (responseHeaders : HeaderMap) :
      Change .collects st { st with pendingHeaderBytes := [], responseHeaders, headersComplete := true }
  | promoted {scope : Scope} (st : ManagedStream) (h : st.state = .remoteReserved) : Change scope st { st with state := .opened }
  | ended {scope : Scope} (st : ManagedStream) : Change scope st { st with endStreamSeen := true }.transitionOnEndStream
  | expected (st : ManagedStream) (resolve reject : Callback) :
      Change .expects st { st with resolve := some resolve, reject := some reject }

namespace ManagedStream

/-- Any number of changes. -/
abbrev Changes (scope : Scope) : ManagedStream → ManagedStream → Prop := ReflTransGen (Change scope)

theorem transitionOnEndStream_eq (st : ManagedStream) :
    st.transitionOnEndStream = { st with state := st.transitionOnEndStream.state } := by
  rw [transitionOnEndStream]
  split <;> rfl

theorem promoteReserved_eq (st : ManagedStream) : st.promoteReserved = { st with state := st.promoteReserved.state } := by
  rw [promoteReserved]
  split <;> rfl

@[simp] theorem transitionOnEndStream_id (st : ManagedStream) : st.transitionOnEndStream.id = st.id := by
  rw [transitionOnEndStream_eq]

@[simp] theorem transitionOnEndStream_isPushPromise (st : ManagedStream) :
    st.transitionOnEndStream.isPushPromise = st.isPushPromise := by
  rw [transitionOnEndStream_eq]

@[simp] theorem transitionOnEndStream_localWindow (st : ManagedStream) :
    st.transitionOnEndStream.localWindow = st.localWindow := by
  rw [transitionOnEndStream_eq]

@[simp] theorem transitionOnEndStream_pendingHeaderBytes (st : ManagedStream) :
    st.transitionOnEndStream.pendingHeaderBytes = st.pendingHeaderBytes := by
  rw [transitionOnEndStream_eq]

@[simp] theorem transitionOnEndStream_endStreamSeen (st : ManagedStream) :
    st.transitionOnEndStream.endStreamSeen = st.endStreamSeen := by
  rw [transitionOnEndStream_eq]

@[simp] theorem promoteReserved_id (st : ManagedStream) : st.promoteReserved.id = st.id := by
  rw [promoteReserved_eq]

variable {scope : Scope} {st st' : ManagedStream}

theorem Change.id_eq (h : Change scope st st') : st'.id = st.id := by
  cases h with
  | ended => exact transitionOnEndStream_id _
  | _ => rfl

theorem Change.localWindow_eq (h : Change scope st st') (hscope : scope ≠ .sends) : st'.localWindow = st.localWindow := by
  cases h with
  | credited => exact absurd rfl hscope
  | ended => exact transitionOnEndStream_localWindow _
  | _ => rfl

/-- The send queue with its mark. -/
def queue (st : ManagedStream) : Bytes × Bool := (st.sendQueue, st.sendQueueEndStream)

@[simp] theorem transitionOnEndStream_queue (st : ManagedStream) : st.transitionOnEndStream.queue = st.queue := by
  rw [transitionOnEndStream_eq]
  rfl

theorem Change.queue_eq (h : Change scope st st') (hqueues : scope ≠ .queues) (hsends : scope ≠ .sends) : st'.queue = st.queue := by
  cases h with
  | queued hscope => exact absurd hscope (not_or.mpr ⟨hqueues, hsends⟩)
  | ended => exact transitionOnEndStream_queue _
  | _ => rfl

theorem Change.pendingHeaderBytes_eq (h : Change scope st st') (hscope : scope ≠ .collects) :
    st'.pendingHeaderBytes = st.pendingHeaderBytes := by
  cases h with
  | collected | decoded => exact absurd rfl hscope
  | ended => exact transitionOnEndStream_pendingHeaderBytes _
  | _ => rfl

/-- The callbacks of the promise that waits for the response. -/
def callbacks (st : ManagedStream) : Option Callback × Option Callback := (st.resolve, st.reject)

theorem callbacks_eq_iff : st'.callbacks = st.callbacks ↔ st'.resolve = st.resolve ∧ st'.reject = st.reject := Prod.mk_inj

@[simp] theorem transitionOnEndStream_callbacks (st : ManagedStream) : st.transitionOnEndStream.callbacks = st.callbacks := by
  rw [transitionOnEndStream_eq]
  rfl

theorem Change.callbacks_eq (h : Change scope st st') (hscope : scope ≠ .expects) : st'.callbacks = st.callbacks := by
  cases h with
  | expected => exact absurd rfl hscope
  | ended => exact transitionOnEndStream_callbacks _
  | _ => rfl

theorem Change.isPushPromise_eq (h : Change scope st st') : st'.isPushPromise = st.isPushPromise := by
  cases h with
  | ended => exact transitionOnEndStream_isPushPromise _
  | _ => rfl

theorem Changes.preserves {P : ManagedStream → Prop} (hP : ∀ st st', Change scope st st' → P st → P st')
    (h : Changes scope st st') (hst : P st) : P st' := by
  induction h with
  | refl => exact hst
  | tail _ hchange ih => exact hP _ _ hchange ih

theorem Changes.id_eq (h : Changes scope st st') : st'.id = st.id :=
  Changes.preserves (P := fun s => s.id = st.id) (fun _ _ hchange hs => hchange.id_eq.trans hs) h rfl

theorem Changes.isPushPromise_eq (h : Changes scope st st') : st'.isPushPromise = st.isPushPromise :=
  Changes.preserves (P := fun s => s.isPushPromise = st.isPushPromise)
    (fun _ _ hchange hs => hchange.isPushPromise_eq.trans hs) h rfl

theorem Changes.localWindow_eq (h : Changes scope st st') (hscope : scope ≠ .sends) : st'.localWindow = st.localWindow :=
  Changes.preserves (P := fun s => s.localWindow = st.localWindow)
    (fun _ _ hchange hs => (hchange.localWindow_eq hscope).trans hs) h rfl

theorem Changes.queue_eq (h : Changes scope st st') (hqueues : scope ≠ .queues) (hsends : scope ≠ .sends) : st'.queue = st.queue :=
  Changes.preserves (P := fun s => s.queue = st.queue) (fun _ _ hchange hs => (hchange.queue_eq hqueues hsends).trans hs) h rfl

theorem Changes.pendingHeaderBytes_eq (h : Changes scope st st') (hscope : scope ≠ .collects) :
    st'.pendingHeaderBytes = st.pendingHeaderBytes :=
  Changes.preserves (P := fun s => s.pendingHeaderBytes = st.pendingHeaderBytes)
    (fun _ _ hchange hs => (hchange.pendingHeaderBytes_eq hscope).trans hs) h rfl

theorem Changes.callbacks_eq (h : Changes scope st st') (hscope : scope ≠ .expects) : st'.callbacks = st.callbacks :=
  Changes.preserves (P := fun s => s.callbacks = st.callbacks)
    (fun _ _ hchange hs => (hchange.callbacks_eq hscope).trans hs) h rfl

theorem Changes.endStreamSeen (h : Changes scope st st') (hended : st.endStreamSeen = true) : st'.endStreamSeen = true := by
  refine Changes.preserves (P := fun st => st.endStreamSeen = true) (fun st st' hchange hst => ?_) h hended
  cases hchange with
  | ended => exact transitionOnEndStream_endStreamSeen _
  | _ => exact hst

end ManagedStream

namespace Manager

open ManagedStream

@[simp] theorem setStream_streams (m : Manager) (st : ManagedStream) : (m.setStream st).streams = m.streams.set st := rfl

@[simp] theorem setStream_effects (m : Manager) (st : ManagedStream) : (m.setStream st).effects = m.effects := rfl

@[simp] theorem perform_streams (m : Manager) (effect : Effect) : (m.perform effect).streams = m.streams := rfl

/-- What bounds sending, apart from the streams' own windows, is as it was. -/
structure SameLimits (m m' : Manager) : Prop where
  connection : m'.connectionSendWindow = m.connectionSendWindow
  initial : m'.remoteInitialWindowSize = m.remoteInitialWindowSize
  frameSize : m'.maxFrameSize = m.maxFrameSize
  concurrent : m'.maxConcurrentStreams = m.maxConcurrentStreams

theorem SameLimits.refl (m : Manager) : SameLimits m m := ⟨rfl, rfl, rfl, rfl⟩

theorem SameLimits.trans {m m' m'' : Manager} (h : SameLimits m m') (h' : SameLimits m' m'') : SameLimits m m'' where
  connection := h'.connection.trans h.connection
  initial := h'.initial.trans h.initial
  frameSize := h'.frameSize.trans h.frameSize
  concurrent := h'.concurrent.trans h.concurrent

/-- The manager moved on without creating a stream. -/
structure Evolves (scope : Scope) (m m' : Manager) : Prop where
  streams : ∀ st' ∈ m'.streams.entries, ∃ st ∈ m.streams.entries, Changes scope st st'
  nextStreamId : m'.nextStreamId = m.nextStreamId
  effects : ∃ new, m'.effects = m.effects ++ new ∧ ∀ effect ∈ new, effect.allowedIn scope = true
  limits : scope ≠ .sends → SameLimits m m'
  pushes : scope ≠ .collects → m'.pendingPushContinuation = m.pendingPushContinuation

namespace Evolves

variable {scope : Scope} {m m' m'' : Manager}

theorem refl (m : Manager) : Evolves scope m m :=
  ⟨fun st h => ⟨st, h, .refl⟩, rfl, ⟨[], (List.append_nil _).symm, fun _ h => absurd h List.not_mem_nil⟩,
    fun _ => .refl m, fun _ => rfl⟩

theorem trans (h : Evolves scope m m') (h' : Evolves scope m' m'') : Evolves scope m m'' where
  streams st'' hst'' := by
    obtain ⟨st', hst', hchanges'⟩ := h'.streams st'' hst''
    obtain ⟨st, hst, hchanges⟩ := h.streams st' hst'
    exact ⟨st, hst, hchanges.trans hchanges'⟩
  nextStreamId := h'.nextStreamId.trans h.nextStreamId
  effects := by
    obtain ⟨new, hnew, hallowed⟩ := h.effects
    obtain ⟨new', hnew', hallowed'⟩ := h'.effects
    exact ⟨new ++ new', by rw [hnew', hnew, List.append_assoc], List.forall_mem_append.mpr ⟨hallowed, hallowed'⟩⟩
  limits hsends := (h.limits hsends).trans (h'.limits hsends)
  pushes hscope := (h'.pushes hscope).trans (h.pushes hscope)

theorem effects_kept (h : Evolves scope m m') : m.effects <+: m'.effects := by
  obtain ⟨new, hnew, -⟩ := h.effects
  exact ⟨new, hnew.symm⟩

theorem congr_right (h : Evolves scope m m') (hstreams : m''.streams = m'.streams) (hnext : m''.nextStreamId = m'.nextStreamId)
    (heffects : m''.effects = m'.effects)
    (hlimits : scope ≠ .sends → SameLimits m' m'')
    (hpushes : scope ≠ .collects → m''.pendingPushContinuation = m'.pendingPushContinuation) : Evolves scope m m'' where
  streams := by rw [hstreams]; exact h.streams
  nextStreamId := hnext.trans h.nextStreamId
  effects := by rw [heffects]; exact h.effects
  limits hscope := (h.limits hscope).trans (hlimits hscope)
  pushes hscope := (hpushes hscope).trans (h.pushes hscope)

theorem perform (h : Evolves scope m m') (effect : Effect) (heffect : effect.allowedIn scope = true) :
    Evolves scope m (m'.perform effect) where
  streams := h.streams
  nextStreamId := h.nextStreamId
  effects := by
    obtain ⟨new, hnew, hallowed⟩ := h.effects
    refine ⟨new ++ [effect], by rw [← List.append_assoc, ← hnew]; rfl, List.forall_mem_append.mpr ⟨hallowed, ?_⟩⟩
    exact fun effect' hmem => List.mem_singleton.mp hmem ▸ heffect
  limits hscope := (h.limits hscope).trans ⟨rfl, rfl, rfl, rfl⟩
  pushes := h.pushes

theorem setStream (h : Evolves scope m m') {st st' : ManagedStream} (hst : st ∈ m.streams.entries)
    (hchanges : Changes scope st st') : Evolves scope m (m'.setStream st') where
  streams w hw := by
    rcases Table.mem_set hw with rfl | ⟨hw, -⟩
    · exact ⟨st, hst, hchanges⟩
    · exact h.streams w hw
  nextStreamId := h.nextStreamId
  effects := h.effects
  limits hscope := (h.limits hscope).trans ⟨rfl, rfl, rfl, rfl⟩
  pushes := h.pushes

theorem finalizeStream (h : Evolves scope m m') (st : ManagedStream) : Evolves scope m (m'.finalizeStream st) :=
  have hemit := h.perform (.emitEvent (.streamClosed st.id)) rfl
  { streams := fun w hw => h.streams w (Table.mem_delete.mp hw).1
    nextStreamId := h.nextStreamId
    effects := hemit.effects
    limits hscope := (h.limits hscope).trans ⟨rfl, rfl, rfl, rfl⟩
    pushes := h.pushes }

theorem rejectStream (h : Evolves scope m m') (st : ManagedStream) (err : JsError) :
    Evolves scope m (m'.rejectStream st err) := by
  rw [Manager.rejectStream]
  split
  · exact h.finalizeStream st
  · exact (h.finalizeStream _).perform _ rfl

theorem maybeResolveResponse (h : Evolves scope m m') (st : ManagedStream) :
    Evolves scope m (m'.maybeResolveResponse st) := by
  rw [Manager.maybeResolveResponse]
  split
  · exact h
  · split
    · exact h
    · dsimp only
      split
      · exact ((h.perform _ rfl).finalizeStream _).perform _ rfl
      · exact (h.finalizeStream _).perform _ rfl

end Evolves

theorem maybeResolveResponse_effects_kept (m : Manager) (st : ManagedStream) :
    m.effects <+: (m.maybeResolveResponse st).effects :=
  ((Evolves.refl m : Evolves .quiet m m).maybeResolveResponse st).effects_kept

theorem forEachStream_induction {motive : Manager → Prop} {m : Manager} {body : Manager → ManagedStream → Manager}
    (hstart : motive m)
    (hbody : ∀ m' st, motive m' → m'.streams.get st.id = some st → motive (body m' st)) : motive (m.forEachStream body) := by
  rw [forEachStream]
  generalize m.streams.keys = keys
  induction keys generalizing m with
  | nil => exact hstart
  | cons key keys ih =>
      rw [List.foldl_cons]
      apply ih
      split
      · rename_i st hget
        exact hbody m st hstart (by rw [Table.key_of_get hget, hget])
      · exact hstart

/-- A loop over the streams reaches each of them: what its body brings about for the stream it is called on, and
keeps for the others, holds of every stream that is left. -/
theorem forEachStream_visits {I : Manager → Prop} {P : Manager → ManagedStream → Prop} {m : Manager}
    {body : Manager → ManagedStream → Manager} (hstart : I m)
    (hinv : ∀ m' st, I m' → m'.streams.get st.id = some st → I (body m' st))
    (hown : ∀ m' st, I m' → m'.streams.get st.id = some st → ∀ w ∈ (body m' st).streams.entries, w.id = st.id → P (body m' st) w)
    (hothers : ∀ m' st, I m' → m'.streams.get st.id = some st → ∀ w' ∈ (body m' st).streams.entries, w'.id ≠ st.id →
      ∃ w ∈ m'.streams.entries, w.id = w'.id ∧ (P m' w → P (body m' st) w')) :
    I (m.forEachStream body) ∧ ∀ w ∈ (m.forEachStream body).streams.entries, P (m.forEachStream body) w := by
  have hleft : ∀ w ∈ m.streams.entries, w.id ∈ m.streams.keys ∨ P m w := fun w hw => .inl (List.mem_map_of_mem hw)
  rw [forEachStream]
  generalize m.streams.keys = keys at hleft
  induction keys generalizing m with
  | nil => exact ⟨hstart, fun w hw => (hleft w hw).resolve_left List.not_mem_nil⟩
  | cons key keys ih =>
      rw [List.foldl_cons]
      cases hget : m.streams.get key with
      | none =>
          refine ih hstart fun w hw => (hleft w hw).imp_left fun hmem => ?_
          exact (List.mem_cons.mp hmem).resolve_left (Table.get_eq_none_iff.mp hget w hw)
      | some st =>
          have hkey := Table.key_of_get hget
          rw [← hkey] at hget
          refine ih (hinv m st hstart hget) fun w' hw' => ?_
          by_cases hid : w'.id = st.id
          · exact .inr (hown m st hstart hget w' hw' hid)
          · obtain ⟨w, hw, hsame, hkeeps⟩ := hothers m st hstart hget w' hw' hid
            refine (hleft w hw).imp (fun hmem => ?_) hkeeps
            rw [← hsame]
            exact (List.mem_cons.mp hmem).resolve_left fun heq => hid (hsame ▸ heq.trans hkey.symm)

/-! ### Draining a queue -/

/-- The manager after the first octets of a stream's queue went out. -/
def afterChunk (m : Manager) (st : ManagedStream) (chunkLen : Nat) (isLast : Bool) : Manager :=
  { m.sendDataFrame st.id (st.sendQueue.take chunkLen) isLast with
      connectionSendWindow := m.connectionSendWindow - chunkLen }.setStream
    { st with
      localWindow := { st.localWindow with size := st.localWindow.size - chunkLen }
      sendQueue := st.sendQueue.drop chunkLen }

/-- One DATA frame goes out for a stream in the table, within the frame size and both send windows. -/
inductive SendsChunk : Manager → Manager → Prop
  | chunk (m : Manager) (st : ManagedStream) (chunkLen : Nat) (isLast : Bool) (hget : m.streams.get st.id = some st)
      (hpos : 0 < chunkLen) (hqueue : chunkLen ≤ st.sendQueue.length) (hlimit : chunkLen ≤ m.maxFrameSize)
      (hconnection : chunkLen ≤ m.connectionSendWindow) (hstream : chunkLen ≤ st.localWindow.size)
      (hlast : isLast = (st.sendQueueEndStream && chunkLen == st.sendQueue.length)) :
      SendsChunk m (m.afterChunk st chunkLen isLast)

theorem drainSendQueue_sends {m : Manager} {st : ManagedStream} (hget : m.streams.get st.id = some st) :
    ReflTransGen SendsChunk m (m.drainSendQueue st) := by
  fun_induction drainSendQueue m st with
  | case1 => exact .refl
  | case2 => exact .refl
  | case3 => exact .refl
  | case4 m st hqueue hconnection hstream cap hcap chunkLen isLast m₁ st₁ ih =>
      have hcaps : cap ≤ m.maxFrameSize ∧ cap ≤ m.connectionSendWindow ∧ cap ≤ st.localWindow.size := by omega
      refine .head (.chunk m st chunkLen isLast hget ?_ ?_ ?_ ?_ ?_ rfl) (ih (Table.get_set_self _ st₁))
      all_goals omega
  | case5 => exact .refl

theorem forEachStream_drainSendQueue_sends (m : Manager) : ReflTransGen SendsChunk m (m.forEachStream drainSendQueue) :=
  forEachStream_induction .refl fun _ _ hsends hget => hsends.trans (drainSendQueue_sends hget)

theorem sends_settings {m m' : Manager} (h : ReflTransGen SendsChunk m m') :
    m'.maxFrameSize = m.maxFrameSize ∧ m'.maxConcurrentStreams = m.maxConcurrentStreams := by
  induction h with
  | refl => exact ⟨rfl, rfl⟩
  | tail _ hchunk ih =>
      cases hchunk
      exact ih

theorem SendsChunk.evolves {m m' : Manager} (h : SendsChunk m m') : Evolves .sends m m' := by
  cases h with
  | chunk st chunkLen isLast hget =>
      have hchanges : Changes .sends st _ := (ReflTransGen.single (.credited st (st.localWindow.size - chunkLen))).tail
        (.queued (.inr rfl) _ (st.sendQueue.drop chunkLen) st.sendQueueEndStream)
      have hsend : Evolves .sends m (m.sendDataFrame st.id (st.sendQueue.take chunkLen) isLast) :=
        (Evolves.refl m).perform _ rfl
      have hdebit : Evolves .sends m { m.sendDataFrame st.id (st.sendQueue.take chunkLen) isLast with
          connectionSendWindow := m.connectionSendWindow - chunkLen } := hsend.congr_right rfl rfl rfl (by simp) fun _ => rfl
      exact hdebit.setStream (Table.mem_of_get hget) hchanges

theorem sends_evolves {m m' : Manager} (h : ReflTransGen SendsChunk m m') : Evolves .sends m m' := by
  induction h with
  | refl => exact .refl m
  | tail _ hchunk ih => exact ih.trans hchunk.evolves

theorem drainSendQueue_evolves {m : Manager} {st : ManagedStream} (hget : m.streams.get st.id = some st) :
    Evolves .sends m (m.drainSendQueue st) :=
  sends_evolves (drainSendQueue_sends hget)

/-! ### Settings and window updates -/

/-- What settings and window updates are made of: a limit moves, a stream's send window moves, a chunk goes out. -/
inductive SendMove : Manager → Manager → Prop
  | limited (m : Manager) (connectionSendWindow remoteInitialWindowSize : Int) (maxConcurrentStreams maxFrameSize : Nat) :
      SendMove m { m with connectionSendWindow, remoteInitialWindowSize, maxConcurrentStreams, maxFrameSize }
  | credited (m : Manager) (st : ManagedStream) (size : Int) (hget : m.streams.get st.id = some st) :
      SendMove m (m.setStream { st with localWindow := { st.localWindow with size } })
  | sent {m m' : Manager} (h : SendsChunk m m') : SendMove m m'

theorem moves_of_sends {m m' : Manager} (h : ReflTransGen SendsChunk m m') : ReflTransGen SendMove m m' :=
  ReflTransGen.mono (fun _ _ => .sent) _ _ h

theorem applyInitialWindowSize_moves (m : Manager) (value : Nat) : ReflTransGen SendMove m (m.applyInitialWindowSize value) := by
  have hstart : SendMove m { m with remoteInitialWindowSize := value } := .limited m _ _ _ _
  rw [applyInitialWindowSize]
  refine .trans (forEachStream_induction (.single hstart) ?_) (moves_of_sends (forEachStream_drainSendQueue_sends _))
  intro m' st hmoves hget
  exact hmoves.tail (.credited m' st _ hget)

theorem applyRemoteSettings_moves (m : Manager) (settings : SettingsMap) : ReflTransGen SendMove m (m.applyRemoteSettings settings) := by
  have hsetting : ∀ (m : Manager) (key value : Nat), ReflTransGen SendMove m (m.applyRemoteSetting key value) := by
    intro m key value
    unfold applyRemoteSetting
    split
    · exact .single (.limited m _ _ _ _)
    · exact applyInitialWindowSize_moves m value
    · exact .single (.limited m _ _ _ _)
    · exact .refl
  rw [applyRemoteSettings]
  generalize settings.entries = entries
  induction entries generalizing m with
  | nil => exact .refl
  | cons entry entries ih => exact (hsetting m entry.1 entry.2).trans (ih _)

theorem handleWindowUpdate_moves (m : Manager) (frame : WindowUpdateFrame) : ReflTransGen SendMove m (m.handleWindowUpdate frame) := by
  rw [handleWindowUpdate]
  split
  · exact .head (.limited m _ _ _ _) (moves_of_sends (forEachStream_drainSendQueue_sends _))
  · split
    · exact .refl
    · rename_i st hget
      have hself : m.streams.get st.id = some st := Table.get_of_mem (Table.mem_of_get hget)
      exact .head (.credited m st _ hself) (moves_of_sends (drainSendQueue_sends (Table.get_set_self _ _)))

theorem SendMove.evolves {m m' : Manager} (h : SendMove m m') : Evolves .sends m m' := by
  cases h with
  | limited => exact (Evolves.refl m).congr_right rfl rfl rfl (by simp) fun _ => rfl
  | credited st size hget => exact (Evolves.refl m).setStream (Table.mem_of_get hget) (.single (.credited st size))
  | sent hchunk => exact hchunk.evolves

theorem moves_evolves {m m' : Manager} (h : ReflTransGen SendMove m m') : Evolves .sends m m' := by
  induction h with
  | refl => exact .refl m
  | tail _ hmove ih => exact ih.trans hmove.evolves

/-! ### The handlers -/

theorem forEachStream_evolves {scope : Scope} {m : Manager} {body : Manager → ManagedStream → Manager}
    (hbody : ∀ m' st, m'.streams.get st.id = some st → Evolves scope m' (body m' st)) : Evolves scope m (m.forEachStream body) :=
  forEachStream_induction (Evolves.refl m) fun m' st h hget => h.trans (hbody m' st hget)

theorem handleData_evolves (m : Manager) (frame : DataFrame) : Evolves .credits m (m.handleData frame) := by
  rw [handleData]
  split
  · exact .refl m
  · rename_i st hget
    have hmem := Table.mem_of_get hget
    have hdebit : Evolves .credits m { m with connectionReceiveWindow := m.connectionReceiveWindow - frame.payload.length } :=
      (Evolves.refl m).congr_right rfl rfl rfl (fun _ => ⟨rfl, rfl, rfl, rfl⟩) fun _ => rfl
    have hcredit := hdebit.perform (.sendFrame (.windowUpdate ⟨0, 0, frame.payload.length⟩)) rfl
    have hreceived : ∀ chunks, Changes .credits st
        { st with
          remoteWindow := { st.remoteWindow with size := st.remoteWindow.size - frame.payload.length }
          responseChunks := chunks } := fun chunks => .single (.received st _ chunks)
    dsimp only
    have hbuffered : ∀ data : Bytes, Changes .credits st
        (if 0 < data.length then
          { st with
            remoteWindow := { st.remoteWindow with size := st.remoteWindow.size - frame.payload.length }
            responseChunks := st.responseChunks ++ [data] }
        else { st with remoteWindow := { st.remoteWindow with size := st.remoteWindow.size - frame.payload.length } }) := by
      intro data
      split
      · exact hreceived _
      · exact hreceived st.responseChunks
    split
    · refine (Evolves.setStream ?_ hmem ((hbuffered _).tail (.ended _))).maybeResolveResponse _
      split
      · exact hcredit
      · exact hcredit.perform _ rfl
    · refine Evolves.setStream ?_ hmem (hbuffered _)
      split
      · exact hcredit
      · exact hcredit.perform _ rfl

theorem decodePendingHeaders_changes {st st' : ManagedStream} {thrown : Option HpackError}
    (h : st.decodePendingHeaders = (st', thrown)) : Changes .collects st st' := by
  rw [decodePendingHeaders] at h
  dsimp only at h
  split at h
  · obtain ⟨rfl, -⟩ := Prod.mk.inj h
    exact .single (.collected st [])
  · obtain ⟨rfl, -⟩ := Prod.mk.inj h
    exact .single (.decoded st _)

theorem pushHeaderBytes_changes (st : ManagedStream) (payload : Bytes) : Changes .collects st (st.pushHeaderBytes payload) :=
  .single (.collected st _)

theorem handleHeaders_evolves (m : Manager) (frame : HeadersFrame) : Evolves .collects m (m.handleHeaders frame).1 := by
  rw [handleHeaders]
  split
  · exact .refl m
  · rename_i st hget
    have hmem := Table.mem_of_get hget
    have hpushed : Changes .collects st _ := pushHeaderBytes_changes st frame.payload
    dsimp only
    split
    · exact (Evolves.refl m).setStream hmem hpushed
    · split
      · rename_i st' e hdecode
        exact (Evolves.refl m).setStream hmem (hpushed.trans (decodePendingHeaders_changes hdecode))
      · rename_i st' hdecode
        have hdecoded := hpushed.trans (decodePendingHeaders_changes hdecode)
        have hpromoted : Changes .collects st st'.promoteReserved := by
          rw [promoteReserved]
          split
          · rename_i hreserved
            exact hdecoded.tail (.promoted st' hreserved)
          · exact hdecoded
        refine ((Evolves.refl m).setStream hmem ?_).maybeResolveResponse _
        split
        · exact hpromoted.tail (.ended _)
        · exact hpromoted

theorem handleRstStream_evolves (m : Manager) (frame : RstStreamFrame) : Evolves .quiet m (m.handleRstStream frame) := by
  rw [handleRstStream]
  split
  · exact .refl m
  · exact (Evolves.refl m).rejectStream _ _

theorem handleSettings_evolves (m : Manager) (frame : SettingsFrame) : Evolves .sends m (m.handleSettings frame) := by
  rw [handleSettings]
  split
  · exact (Evolves.refl m).perform _ rfl
  · exact (moves_evolves (applyRemoteSettings_moves m frame.settings)).perform _ rfl

theorem handlePing_evolves (m : Manager) (frame : PingFrame) : Evolves .quiet m (m.handlePing frame) := by
  rw [handlePing]
  split
  · exact (Evolves.refl m).perform _ rfl
  · exact (Evolves.refl m).perform _ rfl

theorem handleGoaway_evolves (m : Manager) (frame : GoawayFrame) : Evolves .departs m (m.handleGoaway frame) := by
  have hemit : Evolves .departs m (m.emitEvent (.goaway frame.lastStreamId frame.errorCode frame.debugData)) :=
    (Evolves.refl m).perform _ rfl
  refine hemit.trans (forEachStream_evolves fun m' st hget => ?_)
  split
  · exact (Evolves.refl m').rejectStream _ _
  · exact .refl m'

theorem handleWindowUpdate_evolves (m : Manager) (frame : WindowUpdateFrame) : Evolves .sends m (m.handleWindowUpdate frame) :=
  moves_evolves (handleWindowUpdate_moves m frame)

theorem handleContinuation_evolves (m : Manager) (frame : ContinuationFrame) : Evolves .collects m (m.handleContinuation frame).1 := by
  rw [handleContinuation]
  dsimp only
  split
  · exact .refl m
  · rename_i st hget
    have hmem := Table.mem_of_get hget
    have hpushed : Changes .collects st _ := pushHeaderBytes_changes st frame.payload
    split
    · exact (Evolves.refl m).setStream hmem hpushed
    · have hcleared : ∀ promisedId, Evolves .collects m (m.clearPushContinuation frame.streamId promisedId) := by
        intro promisedId
        rw [clearPushContinuation]
        split
        · exact (Evolves.refl m).congr_right rfl rfl rfl (fun _ => ⟨rfl, rfl, rfl, rfl⟩) fun h => absurd rfl h
        · exact .refl m
      split
      · rename_i st' e hdecode
        exact (hcleared _).setStream hmem (hpushed.trans (decodePendingHeaders_changes hdecode))
      · rename_i st' hdecode
        have hwritten := (hcleared ((m.pendingPushContinuation.get frame.streamId).map Prod.snd)).setStream hmem (hpushed.trans (decodePendingHeaders_changes hdecode))
        split
        · exact (hwritten.perform _ rfl).maybeResolveResponse _
        · exact hwritten.maybeResolveResponse _

theorem sendData_evolves (m : Manager) (streamId : StreamId) (data : Bytes) (endStream : Bool) :
    Evolves .sends m (m.sendData streamId data endStream) := by
  rw [sendData]
  split
  · exact .refl m
  · rename_i st hget
    have hqueued : Changes .sends st (if 0 < data.length then { st with sendQueue := st.sendQueue ++ data } else st) := by
      split
      · exact .single (.queued (.inr rfl) st _ st.sendQueueEndStream)
      · exact .refl
    have hmarked : ∀ st', Changes .sends st st' → Changes .sends st (if endStream then { st' with sendQueueEndStream := true } else st') := by
      intro st' h
      split
      · exact h.tail (.queued (.inr rfl) st' st'.sendQueue true)
      · exact h
    have hwritten := (Evolves.refl m).setStream (Table.mem_of_get hget) (hmarked _ hqueued)
    exact hwritten.trans (drainSendQueue_evolves (Table.get_set_self _ _))

theorem expectResponse_evolves (m : Manager) (streamId : StreamId) (resolve reject : Callback) :
    Evolves .expects m (m.expectResponse streamId resolve reject) := by
  rw [expectResponse]
  split
  · exact (Evolves.refl m).perform _ rfl
  · rename_i st hget
    exact (Evolves.refl m).setStream (Table.mem_of_get hget) (.single (.expected st resolve reject))

theorem abortAll_evolves (m : Manager) (error : JsError) : Evolves .quiet m (m.abortAll error) := by
  have hloop : Evolves .quiet m (m.forEachStream fun m stream =>
      let stream := { stream with state := .closed .normal }
      m.rejectStream stream error) :=
    forEachStream_evolves fun m' st hget => (Evolves.refl m').rejectStream _ _
  exact ⟨fun st hst => absurd hst List.not_mem_nil, hloop.nextStreamId, hloop.effects,
    fun hscope => (hloop.limits hscope).trans ⟨rfl, rfl, rfl, rfl⟩, hloop.pushes⟩

/-! ### One operation -/

/-- The stream `openStream` creates. -/
def newClientStream (m : Manager) : ManagedStream :=
  .create m.nextStreamId ⟨m.remoteInitialWindowSize, m.remoteInitialWindowSize⟩
    ⟨defaultInitialWindowSize, defaultInitialWindowSize⟩ false

/-- The stream a PUSH_PROMISE creates. -/
def newPushStream (id : StreamId) : ManagedStream :=
  .create id ⟨defaultInitialWindowSize, defaultInitialWindowSize⟩ ⟨defaultInitialWindowSize, defaultInitialWindowSize⟩ true

theorem handlePushPromise_streams (m : Manager) (frame : PushPromiseFrame) :
    ∃ st, Changes .collects (newPushStream frame.promisedStreamId) st ∧
      (m.handlePushPromise frame).1.streams = m.streams.set st := by
  have hpushed : Changes .collects _ _ := pushHeaderBytes_changes (newPushStream frame.promisedStreamId) frame.payload
  rw [handlePushPromise]
  dsimp only
  split
  · split
    · rename_i st e hdecode
      exact ⟨st, hpushed.trans (decodePendingHeaders_changes hdecode), rfl⟩
    · rename_i st hdecode
      exact ⟨st, hpushed.trans (decodePendingHeaders_changes hdecode), rfl⟩
  · exact ⟨_, hpushed, rfl⟩

theorem handlePushPromise_announces (m : Manager) (frame : PushPromiseFrame) :
    (m.handlePushPromise frame).1.effects = m.effects ∨
      ∃ id headers, (m.handlePushPromise frame).1.effects = m.effects ++ [.emitEvent (.push id headers)] := by
  rw [handlePushPromise]
  dsimp only
  split
  · split
    · exact .inl rfl
    · exact .inr ⟨_, _, rfl⟩
  · exact .inl rfl

theorem handlePushPromise_effects (m : Manager) (frame : PushPromiseFrame) :
    ∃ new, (m.handlePushPromise frame).1.effects = m.effects ++ new ∧ ∀ effect ∈ new, effect.allowedIn .collects = true := by
  rcases handlePushPromise_announces m frame with hsame | ⟨id, headers, hnew⟩
  · exact ⟨[], by rw [hsame, List.append_nil], fun _ h => absurd h List.not_mem_nil⟩
  · exact ⟨_, hnew, fun _ h => List.mem_singleton.mp h ▸ rfl⟩

theorem handlePushPromise_kept (m : Manager) (frame : PushPromiseFrame) :
    (m.handlePushPromise frame).1.nextStreamId = m.nextStreamId ∧ SameLimits m (m.handlePushPromise frame).1 := by
  rw [handlePushPromise]
  dsimp only
  split
  · split <;> exact ⟨rfl, rfl, rfl, rfl, rfl⟩
  · exact ⟨rfl, rfl, rfl, rfl, rfl⟩

/-- Every operation but the two that create a stream only moves the manager on. -/
theorem step_evolves {m : Manager} {op : ManagerOp} (hopen : op ≠ .openStream)
    (hpush : ∀ frame, op ≠ .dispatch (.pushPromise frame)) : Evolves op.scope m (m.step op) := by
  cases op with
  | openStream => exact absurd rfl hopen
  | dispatch frame =>
      cases frame with
      | data frame => exact handleData_evolves m frame
      | headers frame => exact handleHeaders_evolves m frame
      | priority frame => exact .refl m
      | rstStream frame => exact handleRstStream_evolves m frame
      | settings frame => exact handleSettings_evolves m frame
      | pushPromise frame => exact absurd rfl (hpush frame)
      | ping frame => exact handlePing_evolves m frame
      | goaway frame => exact handleGoaway_evolves m frame
      | windowUpdate frame => exact handleWindowUpdate_evolves m frame
      | continuation frame => exact handleContinuation_evolves m frame
  | sendData streamId data endStream => exact sendData_evolves m streamId data endStream
  | applyWindowUpdate streamId increment => exact handleWindowUpdate_evolves m _
  | expectResponse streamId resolve reject => exact expectResponse_evolves m streamId resolve reject
  | abortAll error => exact abortAll_evolves m error

theorem step_streams {m : Manager} {op : ManagerOp} {st' : ManagedStream} (h : st' ∈ (m.step op).streams.entries) :
    (∃ st ∈ m.streams.entries, Changes op.scope st st') ∨ (op = .openStream ∧ st' = m.newClientStream) ∨
      ∃ id, Changes .collects (newPushStream id) st' := by
  by_cases hopen : op = .openStream
  · subst hopen
    rcases Table.mem_set h with rfl | ⟨hmem, -⟩
    · exact .inr (.inl ⟨rfl, rfl⟩)
    · exact .inl ⟨st', hmem, .refl⟩
  by_cases hpush : ∃ frame, op = .dispatch (.pushPromise frame)
  · obtain ⟨frame, rfl⟩ := hpush
    obtain ⟨st, hchanges, hstreams⟩ := handlePushPromise_streams m frame
    have hmem : st' ∈ (m.streams.set st).entries := hstreams ▸ h
    rcases Table.mem_set hmem with rfl | ⟨hold, -⟩
    · exact .inr (.inr ⟨frame.promisedStreamId, hchanges⟩)
    · exact .inl ⟨st', hold, .refl⟩
  · exact .inl ((step_evolves hopen fun frame hop => hpush ⟨frame, hop⟩).streams st' h)

theorem step_nextStreamId (m : Manager) (op : ManagerOp) :
    (m.step op).nextStreamId = if op = .openStream then m.nextStreamId + 2 else m.nextStreamId := by
  split
  · rename_i hopen
    subst hopen
    rfl
  · rename_i hopen
    by_cases hpush : ∃ frame, op = .dispatch (.pushPromise frame)
    · obtain ⟨frame, rfl⟩ := hpush
      exact (handlePushPromise_kept m frame).1
    · exact (step_evolves hopen fun frame hop => hpush ⟨frame, hop⟩).nextStreamId

theorem steps_nextStreamId_le (m : Manager) (ops : List ManagerOp) : m.nextStreamId ≤ (m.steps ops).nextStreamId := by
  induction ops generalizing m with
  | nil => exact Nat.le_refl _
  | cons op ops ih =>
      refine Nat.le_trans ?_ (ih (m.step op))
      rw [step_nextStreamId]
      split
      · exact Nat.le_add_right _ _
      · exact Nat.le_refl _

theorem step_limits (m : Manager) {op : ManagerOp} (hscope : op.scope ≠ .sends) : SameLimits m (m.step op) := by
  by_cases hopen : op = .openStream
  · subst hopen
    exact ⟨rfl, rfl, rfl, rfl⟩
  by_cases hpush : ∃ frame, op = .dispatch (.pushPromise frame)
  · obtain ⟨frame, rfl⟩ := hpush
    exact (handlePushPromise_kept m frame).2
  · exact (step_evolves hopen fun frame hop => hpush ⟨frame, hop⟩).limits hscope

theorem step_allowed (m : Manager) (op : ManagerOp) :
    ∃ new, (m.step op).effects = m.effects ++ new ∧ ∀ effect ∈ new, effect.allowedIn op.scope = true := by
  by_cases hopen : op = .openStream
  · subst hopen
    exact ⟨[], (List.append_nil _).symm, fun _ h => absurd h List.not_mem_nil⟩
  by_cases hpush : ∃ frame, op = .dispatch (.pushPromise frame)
  · obtain ⟨frame, rfl⟩ := hpush
    exact handlePushPromise_effects m frame
  · exact (step_evolves hopen fun frame hop => hpush ⟨frame, hop⟩).effects

theorem step_effects (m : Manager) (op : ManagerOp) : m.effects <+: (m.step op).effects := by
  obtain ⟨new, hnew, -⟩ := step_allowed m op
  exact ⟨new, hnew.symm⟩

/-! ### Whole runs -/

@[simp] theorem run_nil : run [] = create := rfl

theorem run_append (ops ops' : List ManagerOp) : run (ops ++ ops') = (run ops).steps ops' := List.foldl_append

theorem steps_append (m : Manager) (ops ops' : List ManagerOp) : m.steps (ops ++ ops') = (m.steps ops).steps ops' := List.foldl_append

theorem steps_effects (m : Manager) (ops : List ManagerOp) : m.effects <+: (m.steps ops).effects := by
  induction ops generalizing m with
  | nil => exact List.prefix_rfl
  | cons op ops ih => exact (m.step_effects op).trans (ih (m.step op))

theorem steps_concat (m : Manager) (ops : List ManagerOp) (op : ManagerOp) : m.steps (ops ++ [op]) = (m.steps ops).step op :=
  List.foldl_concat _ _ _ _

theorem run_concat (ops : List ManagerOp) (op : ManagerOp) : run (ops ++ [op]) = (run ops).step op := run_append ops [op]

/-- A property of streams that new ones have and no change destroys holds throughout every run. -/
theorem run_forall_streams {P : ManagedStream → Prop}
    (hclient : ∀ id localWindow remoteWindow, P (.create id localWindow remoteWindow false))
    (hpush : ∀ id localWindow remoteWindow, P (.create id localWindow remoteWindow true))
    (hchange : ∀ scope st st', Change scope st st' → P st → P st') (ops : List ManagerOp) :
    ∀ st ∈ (run ops).streams.entries, P st := by
  induction ops using List.reverseRecOn with
  | nil => exact fun st hst => absurd hst List.not_mem_nil
  | append_singleton ops op ih =>
      intro st' hst'
      rw [run_concat] at hst'
      rcases step_streams hst' with ⟨st, hst, hchanges⟩ | ⟨-, rfl⟩ | ⟨id, hchanges⟩
      · exact hchanges.preserves (hchange _) (ih st hst)
      · exact hclient _ _ _
      · exact hchanges.preserves (hchange _) (hpush _ _ _)

end Manager

/-! ### Client streams -/

/-- A client stream in the table is open until the peer ends it, and half closed from then on. -/
def ManagedStream.ClientState (st : ManagedStream) : Prop :=
  st.isPushPromise = false → st.state = if st.endStreamSeen then .remoteHalfClosed else .opened

theorem ManagedStream.ClientState.change {scope : Scope} {st st' : ManagedStream} (h : Change scope st st') (hst : st.ClientState) :
    st'.ClientState := by
  intro hclient
  have hstate := hst (h.isPushPromise_eq ▸ hclient)
  cases h with
  | promoted _ hreserved =>
      rw [hreserved] at hstate
      split at hstate <;> simp at hstate
  | ended =>
      rw [transitionOnEndStream]
      dsimp only
      rw [hstate]
      cases st.endStreamSeen <;> rfl
  | _ => exact hstate

theorem Manager.run_clientState (ops : List ManagerOp) : ∀ st ∈ (Manager.run ops).streams.entries, st.ClientState :=
  Manager.run_forall_streams (fun _ _ _ _ => rfl) (fun _ _ _ h => by simp [ManagedStream.create] at h)
    (fun _ _ _ h => ManagedStream.ClientState.change h) ops

end BrowsercoreHttp2
