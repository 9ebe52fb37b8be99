import BrowsercoreHttp2.Library.Credit
import BrowsercoreHttp2.Stream.Changes

/-!
# Send-side flow control

The two windows the manager keeps are the balances of a book of credit: the connection send window is
what all streams share, the send window of a client stream is its own. Every operation posts its grants
and then one entry for each DATA frame it sends, and a frame is sent only when both balances cover it.
-/

namespace BrowsercoreHttp2

open Relation ManagedStream

/-! ### What the history says -/

/-- The connection-level increment an operation brings. -/
def ManagerOp.connectionIncrement : ManagerOp → Int
  | .dispatch (.windowUpdate frame) => if frame.streamId = 0 then frame.windowSizeIncrement else 0
  | .applyWindowUpdate streamId increment => if streamId = 0 then increment else 0
  | _ => 0

/-- The increment an operation brings for one stream. -/
def ManagerOp.streamIncrement (id : StreamId) : ManagerOp → Int
  | .dispatch (.windowUpdate frame) => if frame.streamId = id then frame.windowSizeIncrement else 0
  | .applyWindowUpdate streamId increment => if streamId = id then increment else 0
  | _ => 0

/-- The INITIAL_WINDOW_SIZE a SETTINGS frame brings. An acknowledgement brings nothing. -/
def SettingsFrame.initialWindowSize (frame : SettingsFrame) : Option Nat :=
  if frame.ack then none else frame.settings.entries.lookup 0x4

def ManagerOp.initialWindowSize : ManagerOp → Option Nat
  | .dispatch (.settings frame) => frame.initialWindowSize
  | _ => none

def connectionIncrements (ops : List ManagerOp) : Int := (ops.map ManagerOp.connectionIncrement).sum

def streamIncrements (id : StreamId) (ops : List ManagerOp) : Int := (ops.map (ManagerOp.streamIncrement id)).sum

/-- The INITIAL_WINDOW_SIZE in force after some operations. -/
def latestInitialWindowSize (ops : List ManagerOp) : Int :=
  ops.foldl (fun size op => op.initialWindowSize.elim size Int.ofNat) defaultInitialWindowSize

/-- The octets of DATA among some effects. -/
def dataOctets (effects : List Effect) : Nat := ((effects.filterMap Effect.sentData).map Prod.snd).sum

/-- The octets of DATA that went out under one stream id. -/
def dataOctetsOn (id : StreamId) (effects : List Effect) : Nat :=
  (((effects.filterMap Effect.sentData).filter fun sent => sent.1 = id).map Prod.snd).sum

theorem dataOctets_append (effects effects' : List Effect) :
    dataOctets (effects ++ effects') = dataOctets effects + dataOctets effects' := by
  simp [dataOctets]

theorem dataOctetsOn_append (id : StreamId) (effects effects' : List Effect) :
    dataOctetsOn id (effects ++ effects') = dataOctetsOn id effects + dataOctetsOn id effects' := by
  simp [dataOctetsOn]

/-! ### The book -/

/-- The entries for the DATA frames among some effects. -/
def spends (effects : List Effect) : List (CreditEvent StreamId) :=
  (effects.filterMap Effect.sentData).map fun sent => .spend sent.1 sent.2

theorem spends_append (effects effects' : List Effect) : spends (effects ++ effects') = spends effects ++ spends effects' := by
  simp [spends]

theorem spends_of_quiet {effects : List Effect} (h : effects.filterMap Effect.sentData = []) : spends effects = [] := by
  rw [spends, h, List.map_nil]

/-- The entry for a new INITIAL_WINDOW_SIZE, if there is one. -/
def initialEvents (size : Option Nat) : List (CreditEvent StreamId) := (size.map fun value : Nat => .setInitial value).toList

/-- The entry for a window increment. Stream 0 stands for the connection. -/
def incrementEvent (streamId : StreamId) (increment : Int) : CreditEvent StreamId :=
  if streamId = 0 then .grantShared increment else .grantOwn streamId increment

namespace Manager

/-- The entries for what an operation grants. -/
def grants (m : Manager) : ManagerOp → List (CreditEvent StreamId)
  | .openStream => [.opened m.nextStreamId]
  | .dispatch (.settings frame) => initialEvents frame.initialWindowSize
  | .dispatch (.windowUpdate frame) => [incrementEvent frame.streamId frame.windowSizeIncrement]
  | .applyWindowUpdate streamId increment => [incrementEvent streamId increment]
  | _ => []

/-- The manager's windows are the balances of the book. -/
structure Matches (m : Manager) (c : Credit StreamId) : Prop where
  shared : c.shared = m.connectionSendWindow
  initial : c.initial = m.remoteInitialWindowSize
  own : ∀ st ∈ m.streams.entries, st.isPushPromise = false → c.own st.id = st.localWindow.size

/-- A frame size that was kept, or set anew from a setting. -/
def FrameSizeFrom (old new : Nat) : Prop := new = old ∨ ∃ value, new = clampMaxFrameSize value

theorem FrameSizeFrom.trans {old mid new : Nat} (h : FrameSizeFrom old mid) (h' : FrameSizeFrom mid new) : FrameSizeFrom old new := by
  rcases h' with rfl | hset
  · exact h
  · exact .inr hset

/-- No window moved, though client streams may have left and frames other than DATA gone out. -/
structure Quiet (m m' : Manager) : Prop where
  streams : ∀ st' ∈ m'.streams.entries, st'.isPushPromise = false →
    ∃ st ∈ m.streams.entries, st.isPushPromise = false ∧ st.id = st'.id ∧ st.localWindow = st'.localWindow
  connection : m'.connectionSendWindow = m.connectionSendWindow
  initial : m'.remoteInitialWindowSize = m.remoteInitialWindowSize
  limit : FrameSizeFrom m.maxFrameSize m'.maxFrameSize
  effects : ∃ new, m'.effects = m.effects ++ new ∧ new.filterMap Effect.sentData = []

theorem Quiet.matches {m m' : Manager} {c : Credit StreamId} (h : Quiet m m') (hm : m.Matches c) : m'.Matches c where
  shared := hm.shared.trans h.connection.symm
  initial := hm.initial.trans h.initial.symm
  own st' hst' hclient' := by
    obtain ⟨st, hst, hclient, hid, hwindow⟩ := h.streams st' hst' hclient'
    rw [← hid, ← hwindow]
    exact hm.own st hst hclient

theorem Evolves.quiet {m m' : Manager} {scope : Scope} (h : Evolves scope m m') (hscope : scope ≠ .sends) : Quiet m m' where
  streams st' hst' hclient' := by
    obtain ⟨st, hst, hchanges⟩ := h.streams st' hst'
    exact ⟨st, hst, hchanges.isPushPromise_eq ▸ hclient', hchanges.id_eq.symm, (hchanges.localWindow_eq hscope).symm⟩
  connection := (h.limits hscope).connection
  initial := (h.limits hscope).initial
  limit := .inl (h.limits hscope).frameSize
  effects := by
    obtain ⟨new, hnew, hallowed⟩ := h.effects
    exact ⟨new, hnew, sentData_of_allAllowed hallowed hscope⟩

theorem Quiet.perform {m m' : Manager} (h : Quiet m m') {effect : Effect} (heffect : effect.sentData = none) :
    Quiet m (m'.perform effect) where
  streams := h.streams
  connection := h.connection
  initial := h.initial
  limit := h.limit
  effects := by
    obtain ⟨new, hnew, hquiet⟩ := h.effects
    refine ⟨new ++ [effect], by rw [← List.append_assoc, ← hnew]; rfl, ?_⟩
    rw [List.filterMap_append, hquiet, List.filterMap_cons_none heffect, List.filterMap_nil, List.append_nil]

theorem Quiet.refl (m : Manager) : Quiet m m := (Evolves.refl m : Evolves .quiet m m).quiet (by decide)

theorem Matches.setStream {m : Manager} {c c' : Credit StreamId} (hm : m.Matches c) (st : ManagedStream)
    (hshared : c'.shared = c.shared) (hinitial : c'.initial = c.initial)
    (hown : st.isPushPromise = false → c'.own st.id = st.localWindow.size) (hothers : ∀ k ≠ st.id, c'.own k = c.own k) :
    (m.setStream st).Matches c' where
  shared := hshared.trans hm.shared
  initial := hinitial.trans hm.initial
  own w hw hclient := by
    rcases Table.mem_set hw with rfl | ⟨hw, hne⟩
    · exact hown hclient
    · rw [hothers w.id hne]
      exact hm.own w hw hclient

/-! ### Sending -/

/-- What sending a chunk does: one DATA frame goes out, covered by both windows, and is posted. -/
theorem SendsChunk.spec {m m' : Manager} {c : Credit StreamId} (h : SendsChunk m m') (hm : m.Matches c) :
    ∃ st ∈ m.streams.entries, ∃ frame : DataFrame, frame.streamId = st.id ∧
      0 < frame.payload.length ∧ frame.payload.length ≤ m.maxFrameSize ∧
      frame.payload.length ≤ m.connectionSendWindow ∧ frame.payload.length ≤ st.localWindow.size ∧
      m'.effects = m.effects ++ [.sendFrame (.data frame)] ∧ m'.Matches (c.post (.spend st.id frame.payload.length)) := by
  cases h with
  | chunk st chunkLen isLast hget hpos hqueue hlimit hconnection hstream =>
      have hlen : (st.sendQueue.take chunkLen).length = chunkLen := List.length_take_of_le hqueue
      have hmem := Table.mem_of_get hget
      refine ⟨st, hmem, ⟨if isLast then 0x1 else 0, st.id, st.sendQueue.take chunkLen⟩, rfl, ?_⟩
      dsimp only
      rw [hlen]
      refine ⟨hpos, hlimit, hconnection, hstream, rfl, ?_⟩
      have hdebit : Matches { m.sendDataFrame st.id (st.sendQueue.take chunkLen) isLast with
          connectionSendWindow := m.connectionSendWindow - chunkLen } { c with shared := c.shared - chunkLen } :=
        ⟨congrArg (· - (chunkLen : Int)) hm.shared, hm.initial, hm.own⟩
      refine hdebit.setStream _ rfl rfl (fun hclient => ?_) fun k hk => Function.update_of_ne hk _ _
      exact (Function.update_self _ _ _).trans (congrArg (· - (chunkLen : Int)) (hm.own st hmem hclient))

theorem sends_spec {m m' : Manager} {c : Credit StreamId} (h : ReflTransGen SendsChunk m m') (hm : m.Matches c) :
    ∃ new, m'.effects = m.effects ++ new ∧ m'.Matches (c.postAll (spends new)) := by
  induction h with
  | refl => exact ⟨[], (List.append_nil _).symm, hm⟩
  | tail _ hchunk ih =>
      obtain ⟨new, hnew, hmatches⟩ := ih
      obtain ⟨st, -, frame, hid, -, -, -, -, hframe, hmatches'⟩ := hchunk.spec hmatches
      refine ⟨new ++ [.sendFrame (.data frame)], by rw [hframe, hnew, List.append_assoc], ?_⟩
      rw [spends_append, Credit.postAll_append]
      rwa [← hid] at hmatches'

/-- The moment a frame of a drain goes out. -/
theorem sends_split {m m' : Manager} {pre post : List Effect} {effect : Effect} (h : ReflTransGen SendsChunk m m')
    (hnew : m'.effects = m.effects ++ (pre ++ effect :: post)) :
    ∃ m₁ m₂, ReflTransGen SendsChunk m m₁ ∧ SendsChunk m₁ m₂ ∧ m₁.effects = m.effects ++ pre ∧
      m₂.effects = m₁.effects ++ [effect] := by
  induction h using ReflTransGen.head_induction_on generalizing pre with
  | refl => simp at hnew
  | @head m m₂ hchunk hsends ih =>
      have hsent : ∃ first, m₂.effects = m.effects ++ [first] := by
        cases hchunk
        exact ⟨_, rfl⟩
      obtain ⟨first, hfirst⟩ := hsent
      obtain ⟨rest, hrest⟩ := (sends_evolves hsends).effects_kept
      have hsame : first :: rest = pre ++ effect :: post := by
        rw [← hrest, hfirst, List.append_assoc] at hnew
        exact List.append_cancel_left hnew
      cases pre with
      | nil =>
          obtain ⟨rfl, -⟩ := List.cons.inj hsame
          exact ⟨m, m₂, .refl, hchunk, (List.append_nil _).symm, hfirst⟩
      | cons e pre =>
          obtain ⟨rfl, hrest'⟩ := List.cons.inj hsame
          obtain ⟨m₁, m₃, hbefore, hnow, heffects, hlast⟩ := @ih pre (by rw [← hrest, hrest']; rfl)
          refine ⟨m₁, m₃, .head hchunk hbefore, hnow, ?_, hlast⟩
          rw [heffects, hfirst, List.append_assoc, List.singleton_append]

/-! ### One operation -/

/-- Where a client stream of `m` still has a stream in `m'`, that is a client stream too. -/
def KeepsClients (m m' : Manager) : Prop :=
  ∀ st ∈ m.streams.entries, st.isPushPromise = false → ∀ st' ∈ m'.streams.entries, st'.id = st.id → st'.isPushPromise = false

theorem KeepsClients.trans {m m' m'' : Manager} {scope : Scope} (h : KeepsClients m m') (h' : Evolves scope m' m'') :
    KeepsClients m m'' := by
  intro st hst hclient st'' hst'' hid
  obtain ⟨st', hst', hchanges⟩ := h'.streams st'' hst''
  rw [hchanges.isPushPromise_eq]
  exact h st hst hclient st' hst' (hchanges.id_eq ▸ hid)

theorem KeepsClients.refl (m : Manager) : KeepsClients m m := by
  intro st hst hclient st' hst' hid
  rwa [Table.key_injOn m.streams hst' hst hid]

theorem Evolves.keepsClients {m m' : Manager} {scope : Scope} (h : Evolves scope m m') : KeepsClients m m' :=
  (KeepsClients.refl m).trans h

/-- How an operation moves the send side: its grants, then DATA frames, then nothing more. -/
structure Phases (m : Manager) (grants : List (CreditEvent StreamId)) (m₁ m₂ m' : Manager) : Prop where
  clients : KeepsClients m m₁
  effects : m₁.effects = m.effects
  limit : m₁.maxFrameSize = m.maxFrameSize
  granted : ∀ c, m.Matches c → m₁.Matches (c.postAll grants)
  sends : ReflTransGen SendsChunk m₁ m₂
  settles : Quiet m₂ m'

theorem forEachStream_setStream (m : Manager) (f : ManagedStream → ManagedStream) (hf : ∀ st, (f st).id = st.id) :
    (m.forEachStream fun m st => m.setStream (f st)) = { m with streams := m.streams.update f hf } := by
  rw [← Table.foldl_modify_keys f hf]
  rw [forEachStream]
  generalize m.streams.keys = ids
  induction ids generalizing m with
  | nil => rfl
  | cons id ids ih =>
      rw [List.foldl_cons, List.foldl_cons, ih, Table.modify]
      cases m.streams.get id <;> rfl

/-- The INITIAL_WINDOW_SIZE case moves every send window by the difference before anything is sent. -/
theorem applyInitialWindowSize_phases (m : Manager) (value : Nat) :
    ∃ m₁, Phases m [.setInitial value] m₁ (m.applyInitialWindowSize value) (m.applyInitialWindowSize value) := by
  let shift (st : ManagedStream) : ManagedStream :=
    { st with localWindow := { st.localWindow with size := st.localWindow.size + (value - m.remoteInitialWindowSize) } }
  let m₁ : Manager := { m with
    remoteInitialWindowSize := value
    streams := m.streams.update shift fun _ => rfl }
  have hshifted : m.applyInitialWindowSize value = m₁.forEachStream drainSendQueue := by
    rw [applyInitialWindowSize]
    exact congrArg (forEachStream · drainSendQueue)
      (forEachStream_setStream { m with remoteInitialWindowSize := value } shift fun _ => rfl)
  have horigin : ∀ st' ∈ m₁.streams.entries, ∃ st ∈ m.streams.entries, shift st = st' := fun st' hst' =>
    List.mem_map.mp hst'
  refine ⟨m₁, ?_, rfl, rfl, ?_, ?_, .refl _⟩
  · intro st hst hclient st' hst' hid
    obtain ⟨st₀, hst₀, rfl⟩ := horigin st' hst'
    exact KeepsClients.refl m st hst hclient st₀ hst₀ hid
  · intro c hm
    refine ⟨hm.shared, rfl, fun st' hst' hclient => ?_⟩
    obtain ⟨st, hst, rfl⟩ := horigin st' hst'
    have hbalance : c.own st.id = st.localWindow.size := hm.own st hst hclient
    show c.own st.id + (value - c.initial) = st.localWindow.size + (value - m.remoteInitialWindowSize)
    rw [hbalance, hm.initial]
  · rw [hshifted]
    exact forEachStream_drainSendQueue_sends m₁

theorem applyRemoteSetting_quiet (m : Manager) {key : Nat} (value : Nat) (hkey : key ≠ 0x4) :
    let m' := m.applyRemoteSetting key value
    m'.streams = m.streams ∧ m'.connectionSendWindow = m.connectionSendWindow ∧
      m'.remoteInitialWindowSize = m.remoteInitialWindowSize ∧ m'.effects = m.effects ∧
      FrameSizeFrom m.maxFrameSize m'.maxFrameSize ∧ (key ≠ 0x5 → m'.maxFrameSize = m.maxFrameSize) := by
  unfold applyRemoteSetting
  split
  · exact ⟨rfl, rfl, rfl, rfl, .inl rfl, fun _ => rfl⟩
  · exact absurd rfl hkey
  · exact ⟨rfl, rfl, rfl, rfl, .inr ⟨value, rfl⟩, fun h => absurd rfl h⟩
  · exact ⟨rfl, rfl, rfl, rfl, .inl rfl, fun _ => rfl⟩

theorem foldl_applyRemoteSetting_quiet (m : Manager) {entries : List (Nat × Nat)} (hkeys : 0x4 ∉ entries.map Prod.fst) :
    Quiet m (entries.foldl (fun m entry => m.applyRemoteSetting entry.1 entry.2) m) := by
  induction entries generalizing m with
  | nil => exact .refl m
  | cons entry entries ih =>
      rw [List.map_cons, List.mem_cons, not_or] at hkeys
      obtain ⟨hstreams, hconnection, hinitial, heffects, hlimit, -⟩ := applyRemoteSetting_quiet m entry.2 (Ne.symm hkeys.1)
      have hrest := ih (m.applyRemoteSetting entry.1 entry.2) hkeys.2
      exact ⟨hstreams ▸ hrest.streams, hrest.connection.trans hconnection, hrest.initial.trans hinitial,
        hlimit.trans hrest.limit, heffects ▸ hrest.effects⟩

/-- The settings come in ascending order, so those before INITIAL_WINDOW_SIZE do not touch the send side at all. -/
theorem applyRemoteSettings_phases (m : Manager) {entries : List (Nat × Nat)}
    (hascending : (entries.map Prod.fst).Pairwise (· < ·)) :
    ∃ m₁ m₂, Phases m (initialEvents (entries.lookup 0x4)) m₁ m₂
      (entries.foldl (fun m entry => m.applyRemoteSetting entry.1 entry.2) m) := by
  induction entries generalizing m with
  | nil => exact ⟨m, m, .refl m, rfl, rfl, fun _ hm => hm, .refl, .refl m⟩
  | cons entry entries ih =>
      obtain ⟨key, value⟩ := entry
      rw [List.map_cons, List.pairwise_cons] at hascending
      rw [List.foldl_cons]
      rcases lt_trichotomy key 0x4 with hlt | rfl | hgt
      · obtain ⟨hstreams, hconnection, hinitial, heffects, -, hlimit⟩ := applyRemoteSetting_quiet m value (by omega : key ≠ 0x4)
        obtain ⟨m₁, m₂, hphases⟩ := ih (m.applyRemoteSetting key value) hascending.2
        have hlookup : List.lookup 0x4 ((key, value) :: entries) = List.lookup 0x4 entries := by
          rw [List.lookup_cons, show (0x4 == key) = false from beq_false_of_ne (by omega)]
        rw [hlookup]
        refine ⟨m₁, m₂, ?_, hphases.effects.trans heffects, hphases.limit.trans (hlimit (by omega)), ?_, hphases.sends,
          hphases.settles⟩
        · rw [KeepsClients]
          rw [← hstreams]
          exact hphases.clients
        · intro c hm
          exact hphases.granted c ⟨hm.shared.trans hconnection.symm, hm.initial.trans hinitial.symm, hstreams ▸ hm.own⟩
      · have habsent : 0x4 ∉ entries.map Prod.fst := fun hmem => lt_irrefl _ (hascending.1 _ hmem)
        obtain ⟨m₁, hphases⟩ := applyInitialWindowSize_phases m value
        rw [List.lookup_cons, beq_self_eq_true]
        exact ⟨m₁, _, { hphases with settles := foldl_applyRemoteSetting_quiet (m.applyInitialWindowSize value) habsent }⟩
      · have habsent : 0x4 ∉ ((key, value) :: entries).map Prod.fst := by
          rw [List.map_cons, List.mem_cons, not_or]
          exact ⟨by omega, fun hmem => absurd (hascending.1 _ hmem) (by omega)⟩
        have hlookup : List.lookup 0x4 ((key, value) :: entries) = none :=
          List.lookup_eq_none_iff.mpr fun entry hentry => by
            have hne : 0x4 ≠ entry.1 := fun h => habsent (h ▸ List.mem_map_of_mem hentry)
            simpa using hne
        rw [hlookup]
        exact ⟨m, m, .refl m, rfl, rfl, fun _ hm => hm, .refl, foldl_applyRemoteSetting_quiet m habsent⟩

theorem handleWindowUpdate_phases (m : Manager) (frame : WindowUpdateFrame) :
    ∃ m₁, Phases m [incrementEvent frame.streamId frame.windowSizeIncrement] m₁ (m.handleWindowUpdate frame)
      (m.handleWindowUpdate frame) := by
  rw [incrementEvent]
  by_cases hconnection : frame.streamId = 0
  · rw [if_pos hconnection, handleWindowUpdate, if_pos hconnection]
    refine ⟨{ m with connectionSendWindow := m.connectionSendWindow + frame.windowSizeIncrement }, .refl m, rfl, rfl, ?_,
      forEachStream_drainSendQueue_sends _, .refl _⟩
    exact fun c hm => ⟨congrArg (· + frame.windowSizeIncrement) hm.shared, hm.initial, hm.own⟩
  · rw [if_neg hconnection, handleWindowUpdate, if_neg hconnection]
    cases hget : m.streams.get frame.streamId with
    | none =>
        refine ⟨m, .refl m, rfl, rfl, fun c hm => ⟨hm.shared, hm.initial, fun st hst hclient => ?_⟩, .refl, .refl m⟩
        have hid : st.id ≠ frame.streamId := Table.get_eq_none_iff.mp hget st hst
        rw [← hm.own st hst hclient]
        exact Function.update_of_ne hid _ _
    | some st =>
        have hid := Table.key_of_get hget
        let st₁ : ManagedStream :=
          { st with localWindow := { st.localWindow with size := st.localWindow.size + frame.windowSizeIncrement } }
        have hcredited : Evolves .sends m (m.setStream st₁) :=
          (Evolves.refl m).setStream (Table.mem_of_get hget) (.single (.credited st _))
        refine ⟨m.setStream st₁, hcredited.keepsClients, rfl, rfl, fun c hm => ?_,
          drainSendQueue_sends (Table.get_set_self _ st₁), .refl _⟩
        rw [← hid]
        refine hm.setStream st₁ rfl rfl (fun hclient => ?_) fun k hk => Function.update_of_ne hk _ _
        exact (Function.update_self _ _ _).trans (congrArg (· + frame.windowSizeIncrement) (hm.own st (Table.mem_of_get hget) hclient))

theorem Quiet.phases {m m' : Manager} (h : Quiet m m') : Phases m [] m m m' :=
  ⟨.refl m, rfl, rfl, fun _ hm => hm, .refl, h⟩

theorem handleSettings_phases (m : Manager) (frame : SettingsFrame) :
    ∃ m₁ m₂, Phases m (m.grants (.dispatch (.settings frame))) m₁ m₂ (m.handleSettings frame) := by
  rw [handleSettings]
  simp only [grants, SettingsFrame.initialWindowSize]
  split
  · exact ⟨m, m, ((Quiet.refl m).perform rfl).phases⟩
  · obtain ⟨m₁, m₂, hphases⟩ := applyRemoteSettings_phases m frame.settings.ascending
    exact ⟨m₁, m₂, { hphases with settles := hphases.settles.perform rfl }⟩

theorem sendData_phases (m : Manager) (streamId : StreamId) (data : Bytes) (endStream : Bool) :
    ∃ m₁ m₂, Phases m [] m₁ m₂ (m.sendData streamId data endStream) := by
  rw [sendData]
  split
  · exact ⟨m, m, (Quiet.refl m).phases⟩
  · rename_i st hget
    have hmem := Table.mem_of_get hget
    have hqueued : Changes .queues st (if 0 < data.length then { st with sendQueue := st.sendQueue ++ data } else st) := by
      split
      · exact .single (.queued (.inl rfl) st _ st.sendQueueEndStream)
      · exact .refl
    have hmarked : ∀ st', Changes .queues st st' → Changes .queues st (if endStream then { st' with sendQueueEndStream := true } else st') := by
      intro st' h
      split
      · exact h.tail (.queued (.inl rfl) st' st'.sendQueue true)
      · exact h
    have hwritten := (Evolves.refl m).setStream hmem (hmarked _ hqueued)
    exact ⟨_, _, hwritten.keepsClients, rfl, rfl, fun c hm => (hwritten.quiet (by decide)).matches hm,
      drainSendQueue_sends (Table.get_set_self _ _), .refl _⟩

theorem handlePushPromise_quiet (m : Manager) (frame : PushPromiseFrame) : Quiet m (m.handlePushPromise frame).1 where
  streams st' hst' hclient' := by
    obtain ⟨st, hchanges, hstreams⟩ := handlePushPromise_streams m frame
    rw [hstreams] at hst'
    rcases Table.mem_set hst' with rfl | ⟨hst', -⟩
    · rw [hchanges.isPushPromise_eq] at hclient'
      exact Bool.noConfusion hclient'
    · exact ⟨st', hst', hclient', rfl, rfl⟩
  connection := (handlePushPromise_kept m frame).2.connection
  initial := (handlePushPromise_kept m frame).2.initial
  limit := .inl (handlePushPromise_kept m frame).2.frameSize
  effects := by
    obtain ⟨new, hnew, hallowed⟩ := handlePushPromise_effects m frame
    exact ⟨new, hnew, sentData_of_allAllowed hallowed (by decide)⟩

theorem openStream_phases (m : Manager) : Phases m [.opened m.nextStreamId] m.openStream.1 m.openStream.1 m.openStream.1 where
  clients st hst hclient st' hst' hid := by
    rcases Table.mem_set hst' with rfl | ⟨hst', -⟩
    · rfl
    · exact KeepsClients.refl m st hst hclient st' hst' hid
  effects := rfl
  limit := rfl
  granted c hm := by
    have hstart : Matches { m with
        nextStreamId := m.nextStreamId + 2
        retired := m.retired ++ (m.streams.get m.nextStreamId).toList } c := ⟨hm.shared, hm.initial, hm.own⟩
    refine hstart.setStream _ rfl rfl (fun _ => ?_) fun k hk => Function.update_of_ne hk _ _
    exact (Function.update_self _ _ _).trans hm.initial
  sends := .refl
  settles := .refl _

/-- Every operation is its grants, then DATA frames, then nothing on the send side. -/
theorem step_phases (m : Manager) (op : ManagerOp) : ∃ m₁ m₂, Phases m (m.grants op) m₁ m₂ (m.step op) := by
  cases op with
  | openStream => exact ⟨_, _, openStream_phases m⟩
  | dispatch frame =>
      cases frame with
      | data frame => exact ⟨m, m, ((handleData_evolves m frame).quiet (by decide)).phases⟩
      | headers frame => exact ⟨m, m, ((handleHeaders_evolves m frame).quiet (by decide)).phases⟩
      | priority frame => exact ⟨m, m, (Quiet.refl m).phases⟩
      | rstStream frame => exact ⟨m, m, ((handleRstStream_evolves m frame).quiet (by decide)).phases⟩
      | settings frame => exact handleSettings_phases m frame
      | pushPromise frame => exact ⟨m, m, (handlePushPromise_quiet m frame).phases⟩
      | ping frame => exact ⟨m, m, ((handlePing_evolves m frame).quiet (by decide)).phases⟩
      | goaway frame => exact ⟨m, m, ((handleGoaway_evolves m frame).quiet (by decide)).phases⟩
      | windowUpdate frame =>
          obtain ⟨m₁, hphases⟩ := handleWindowUpdate_phases m frame
          exact ⟨m₁, _, hphases⟩
      | continuation frame => exact ⟨m, m, ((handleContinuation_evolves m frame).quiet (by decide)).phases⟩
  | sendData streamId data endStream => exact sendData_phases m streamId data endStream
  | applyWindowUpdate streamId increment =>
      obtain ⟨m₁, hphases⟩ := handleWindowUpdate_phases m ⟨0, streamId, increment⟩
      exact ⟨m₁, _, hphases⟩
  | expectResponse streamId resolve reject => exact ⟨m, m, ((expectResponse_evolves m streamId resolve reject).quiet (by decide)).phases⟩
  | abortAll error => exact ⟨m, m, ((abortAll_evolves m error).quiet (by decide)).phases⟩

/-- The effects an operation adds. -/
def newEffects (m : Manager) (op : ManagerOp) : List Effect := (m.step op).effects.drop m.effects.length

theorem step_effects_eq (m : Manager) (op : ManagerOp) : (m.step op).effects = m.effects ++ m.newEffects op := by
  obtain ⟨new, hnew⟩ := step_effects m op
  rw [newEffects, ← hnew, List.drop_left]

theorem newEffects_allowed (m : Manager) (op : ManagerOp) : ∀ effect ∈ m.newEffects op, effect.allowedIn op.scope = true := by
  obtain ⟨new, hnew, hallowed⟩ := step_allowed m op
  rw [newEffects, hnew, List.drop_left]
  exact hallowed

/-- The entries an operation posts. -/
def posted (m : Manager) (op : ManagerOp) : List (CreditEvent StreamId) := m.grants op ++ spends (m.newEffects op)

/-- One operation keeps the windows and the book in step. -/
theorem step_matches {m : Manager} {c : Credit StreamId} (hm : m.Matches c) (op : ManagerOp) :
    (m.step op).Matches (c.postAll (m.posted op)) := by
  obtain ⟨m₁, m₂, hphases⟩ := step_phases m op
  obtain ⟨sent, hsent, hmatches⟩ := sends_spec hphases.sends (hphases.granted c hm)
  obtain ⟨rest, hrest, hquiet⟩ := hphases.settles.effects
  have hnew : m.newEffects op = sent ++ rest := by
    have htotal := step_effects_eq m op
    rw [hrest, hsent, hphases.effects, List.append_assoc] at htotal
    exact (List.append_cancel_left htotal).symm
  rw [posted, hnew, spends_append, spends_of_quiet hquiet, List.append_nil, Credit.postAll_append]
  exact hphases.settles.matches hmatches

/-- A DATA frame an operation sends on a client stream is covered by both balances as they stand then. -/
theorem step_covered {m : Manager} {c : Credit StreamId} (hm : m.Matches c) {op : ManagerOp} {pre post : List Effect}
    {frame : DataFrame} {st : ManagedStream} (hnew : m.newEffects op = pre ++ .sendFrame (.data frame) :: post)
    (hget : m.streams.get frame.streamId = some st) (hclient : st.isPushPromise = false) :
    let c' := c.postAll (m.grants op ++ spends pre)
    0 < frame.payload.length ∧ frame.payload.length ≤ m.maxFrameSize ∧
      frame.payload.length ≤ c'.shared ∧ frame.payload.length ≤ c'.own frame.streamId := by
  obtain ⟨m₁, m₂, hphases⟩ := step_phases m op
  obtain ⟨rest, hrest, hquiet⟩ := hphases.settles.effects
  obtain ⟨sent, hsent⟩ := (sends_evolves hphases.sends).effects_kept
  have hsplit : ∃ post', sent = pre ++ .sendFrame (.data frame) :: post' := by
    have htotal := step_effects_eq m op
    rw [hrest, ← hsent, hphases.effects, List.append_assoc, hnew] at htotal
    have hsame := List.append_cancel_left htotal
    have hlate : .sendFrame (.data frame) ∉ rest := by
      intro hmem
      have hsentData : (frame.streamId, frame.payload.length) ∈ rest.filterMap Effect.sentData :=
        List.mem_filterMap.mpr ⟨_, hmem, rfl⟩
      rw [hquiet] at hsentData
      exact List.not_mem_nil hsentData
    rcases List.append_eq_append_iff.mp hsame with ⟨extra, -, hextra⟩ | ⟨extra, hextra, hpost⟩
    · exact absurd (hextra ▸ List.mem_append_right extra List.mem_cons_self) hlate
    · cases extra with
      | nil =>
          rw [List.nil_append] at hpost
          exact absurd (hpost ▸ List.mem_cons_self) hlate
      | cons first extra =>
          obtain ⟨rfl, -⟩ := List.cons.inj hpost
          exact ⟨extra, hextra⟩
  obtain ⟨post', rfl⟩ := hsplit
  obtain ⟨m₃, m₄, hbefore, hnow, heffects, hlast⟩ := sends_split hphases.sends hsent.symm
  obtain ⟨sent, hpre, hmatches⟩ := sends_spec hbefore (hphases.granted c hm)
  obtain rfl : pre = sent := List.append_cancel_left (heffects.symm.trans hpre)
  obtain ⟨st', hst', frame', hid, hpos, hlimit', hconnection, hstream, hsent', -⟩ := hnow.spec hmatches
  obtain rfl : frame = frame' := by
    have hsame := List.append_cancel_left (hlast.symm.trans hsent')
    simpa using hsame
  have hst := Table.mem_of_get hget
  have hclient' : st'.isPushPromise = false :=
    (hphases.clients.trans (sends_evolves hbefore)) st hst hclient st' hst' (hid.symm.trans (Table.key_of_get hget).symm)
  dsimp only
  rw [Credit.postAll_append]
  refine ⟨hpos, ?_, ?_, ?_⟩
  · rwa [(sends_settings hbefore).1, hphases.limit] at hlimit'
  · rwa [hmatches.shared]
  · rwa [hid, hmatches.own st' hst' hclient']

/-! ### Whole runs -/

/-- The entries a list of operations posts. -/
def history (m : Manager) : List ManagerOp → List (CreditEvent StreamId)
  | [] => []
  | op :: ops => m.posted op ++ (m.step op).history ops

theorem steps_matches {m : Manager} {c : Credit StreamId} (hm : m.Matches c) (ops : List ManagerOp) :
    (m.steps ops).Matches (c.postAll (m.history ops)) := by
  induction ops generalizing m c with
  | nil => exact hm
  | cons op ops ih =>
      rw [history, Credit.postAll_append]
      exact ih (step_matches hm op)

theorem steps_effects_eq (m : Manager) (ops : List ManagerOp) :
    (m.steps ops).effects = m.effects ++ (m.steps ops).effects.drop m.effects.length := by
  obtain ⟨new, hnew⟩ := m.steps_effects ops
  rw [← hnew, List.drop_left]

theorem history_append (m : Manager) (ops ops' : List ManagerOp) :
    m.history (ops ++ ops') = m.history ops ++ (m.steps ops).history ops' := by
  induction ops generalizing m with
  | nil => rfl
  | cons op ops ih =>
      rw [List.cons_append, history, history, ih, List.append_assoc]
      rfl

theorem history_sum {f : CreditEvent StreamId → Int} {g : ManagerOp → Int}
    (hf : ∀ m op, ((grants m op).map f).sum = g op) (m : Manager) (ops : List ManagerOp) :
    ((m.history ops).map f).sum =
      (ops.map g).sum + ((spends ((m.steps ops).effects.drop m.effects.length)).map f).sum := by
  induction ops generalizing m with
  | nil => simp [history, steps, spends]
  | cons op ops ih =>
      have hsplit : (m.steps (op :: ops)).effects.drop m.effects.length =
          m.newEffects op ++ ((m.step op).steps ops).effects.drop (m.step op).effects.length := by
        have htotal := steps_effects_eq (m.step op) ops
        rw [step_effects_eq, List.append_assoc, ← step_effects_eq] at htotal
        show ((m.step op).steps ops).effects.drop m.effects.length = _
        rw [htotal, List.drop_left, ← htotal]
      rw [hsplit, history, posted, spends_append]
      simp only [List.map_append, List.sum_append, List.map_cons, List.sum_cons, ih, hf]
      omega

end Manager

/-! ### What was granted and what was spent -/

theorem sum_sharedGrant_spends (effects : List Effect) : ((spends effects).map CreditEvent.sharedGrant).sum = 0 := by
  simp [spends, Function.comp_def, CreditEvent.sharedGrant]

theorem sum_ownGrant_spends (id : StreamId) (effects : List Effect) :
    ((spends effects).map (CreditEvent.ownGrant id)).sum = 0 := by
  simp [spends, Function.comp_def, CreditEvent.ownGrant]

theorem sum_spent_spends (effects : List Effect) : ((spends effects).map CreditEvent.spent).sum = dataOctets effects := by
  rw [spends, dataOctets, List.map_map]
  induction effects.filterMap Effect.sentData with
  | nil => rfl
  | cons sent rest ih =>
      rw [List.map_cons, List.sum_cons, ih, List.map_cons, List.sum_cons, Nat.cast_add]
      rfl

theorem sum_spentBy_spends (id : StreamId) (effects : List Effect) :
    ((spends effects).map (CreditEvent.spentBy id)).sum = dataOctetsOn id effects := by
  rw [spends, dataOctetsOn, List.map_map]
  induction effects.filterMap Effect.sentData with
  | nil => rfl
  | cons sent rest ih =>
      rw [List.map_cons, List.sum_cons, ih]
      by_cases hid : sent.1 = id <;> simp [CreditEvent.spentBy, hid]

theorem incrementEvent_sharedGrant (streamId : StreamId) (increment : Int) :
    (incrementEvent streamId increment).sharedGrant = if streamId = 0 then increment else 0 := by
  rw [incrementEvent]
  split <;> rfl

theorem incrementEvent_ownGrant {id : StreamId} (hid : id ≠ 0) (streamId : StreamId) (increment : Int) :
    (incrementEvent streamId increment).ownGrant id = if streamId = id then increment else 0 := by
  rw [incrementEvent]
  split
  · rename_i hconnection
    rw [if_neg (hconnection ▸ hid.symm)]
    rfl
  · rfl

theorem incrementEvent_spent (streamId : StreamId) (increment : Int) : (incrementEvent streamId increment).spent = 0 := by
  rw [incrementEvent]
  split <;> rfl

theorem incrementEvent_spentBy (id streamId : StreamId) (increment : Int) :
    (incrementEvent streamId increment).spentBy id = 0 := by
  rw [incrementEvent]
  split <;> rfl

namespace Manager

theorem grants_cases (m : Manager) (op : ManagerOp) :
    op = .openStream ∨
      (∃ streamId increment, m.grants op = [incrementEvent streamId increment] ∧ op.initialWindowSize = none ∧
        op.connectionIncrement = (if streamId = 0 then increment else 0) ∧
        ∀ id, op.streamIncrement id = if streamId = id then increment else 0) ∨
      (m.grants op = initialEvents op.initialWindowSize ∧ op.connectionIncrement = 0 ∧ ∀ id, op.streamIncrement id = 0) := by
  cases op with
  | openStream => exact .inl rfl
  | dispatch frame =>
      cases frame with
      | windowUpdate frame => exact .inr (.inl ⟨frame.streamId, frame.windowSizeIncrement, rfl, rfl, rfl, fun _ => rfl⟩)
      | _ => exact .inr (.inr ⟨rfl, rfl, fun _ => rfl⟩)
  | applyWindowUpdate streamId increment => exact .inr (.inl ⟨streamId, increment, rfl, rfl, rfl, fun _ => rfl⟩)
  | _ => exact .inr (.inr ⟨rfl, rfl, fun _ => rfl⟩)

theorem sum_sharedGrant_grants (m : Manager) (op : ManagerOp) :
    ((m.grants op).map CreditEvent.sharedGrant).sum = op.connectionIncrement := by
  rcases grants_cases m op with rfl | ⟨streamId, increment, hgrants, -, hincrement, -⟩ | ⟨hgrants, hincrement, -⟩
  · rfl
  · rw [hgrants, hincrement, List.map_singleton, List.sum_singleton, incrementEvent_sharedGrant]
  · rw [hgrants, hincrement]
    cases op.initialWindowSize <;> rfl

theorem sum_ownGrant_grants {id : StreamId} (hid : id ≠ 0) (m : Manager) (op : ManagerOp) :
    ((m.grants op).map (CreditEvent.ownGrant id)).sum = op.streamIncrement id := by
  rcases grants_cases m op with rfl | ⟨streamId, increment, hgrants, -, -, hincrement⟩ | ⟨hgrants, -, hincrement⟩
  · rfl
  · rw [hgrants, hincrement, List.map_singleton, List.sum_singleton, incrementEvent_ownGrant hid]
  · rw [hgrants, hincrement]
    cases op.initialWindowSize <;> rfl

theorem sum_spent_grants (m : Manager) (op : ManagerOp) : ((m.grants op).map CreditEvent.spent).sum = 0 := by
  rcases grants_cases m op with rfl | ⟨streamId, increment, hgrants, -⟩ | ⟨hgrants, -⟩
  · rfl
  · rw [hgrants, List.map_singleton, List.sum_singleton, incrementEvent_spent]
  · rw [hgrants]
    cases op.initialWindowSize <;> rfl

theorem sum_spentBy_grants (id : StreamId) (m : Manager) (op : ManagerOp) :
    ((m.grants op).map (CreditEvent.spentBy id)).sum = 0 := by
  rcases grants_cases m op with rfl | ⟨streamId, increment, hgrants, -⟩ | ⟨hgrants, -⟩
  · rfl
  · rw [hgrants, List.map_singleton, List.sum_singleton, incrementEvent_spentBy]
  · rw [hgrants]
    cases op.initialWindowSize <;> rfl

theorem postAll_spends_initial (c : Credit StreamId) (effects : List Effect) : (c.postAll (spends effects)).initial = c.initial := by
  rw [spends]
  induction effects.filterMap Effect.sentData generalizing c with
  | nil => rfl
  | cons sent rest ih => exact ih (c.post (.spend sent.1 sent.2))

theorem postAll_grants_initial (c : Credit StreamId) (m : Manager) (op : ManagerOp) :
    (c.postAll (m.grants op)).initial = op.initialWindowSize.elim c.initial Int.ofNat := by
  rcases grants_cases m op with rfl | ⟨streamId, increment, hgrants, hnone, -⟩ | ⟨hgrants, -⟩
  · rfl
  · rw [hgrants, hnone]
    show (c.post (incrementEvent streamId increment)).initial = c.initial
    rw [incrementEvent]
    split <;> rfl
  · rw [hgrants]
    cases op.initialWindowSize <;> rfl

theorem postAll_history_initial (c : Credit StreamId) (m : Manager) (ops : List ManagerOp) :
    (c.postAll (m.history ops)).initial = ops.foldl (fun size op => op.initialWindowSize.elim size Int.ofNat) c.initial := by
  induction ops generalizing m c with
  | nil => rfl
  | cons op ops ih =>
      rw [history, Credit.postAll_append, ih, posted, Credit.postAll_append, postAll_spends_initial, postAll_grants_initial]
      rfl

theorem opened_mem_grants {m : Manager} {op : ManagerOp} {id : StreamId} (h : .opened id ∈ m.grants op) :
    op = .openStream ∧ id = m.nextStreamId := by
  rcases grants_cases m op with rfl | ⟨streamId, increment, hgrants, -⟩ | ⟨hgrants, -⟩
  · refine ⟨rfl, ?_⟩
    simpa [grants] using h
  · rw [hgrants, List.mem_singleton, incrementEvent] at h
    split at h <;> simp at h
  · rw [hgrants] at h
    cases hsize : op.initialWindowSize with
    | none => simp [hsize, initialEvents] at h
    | some value => simp [hsize, initialEvents] at h

theorem opened_not_mem_spends (id : StreamId) (effects : List Effect) : .opened id ∉ spends effects := by
  simp [spends]

theorem opened_not_mem_history {m : Manager} {id : Nat} (hid : id < m.nextStreamId) (ops : List ManagerOp) :
    .opened id ∉ m.history ops ∧ id < (m.steps ops).nextStreamId := by
  induction ops generalizing m with
  | nil => exact ⟨List.not_mem_nil, hid⟩
  | cons op ops ih =>
      have hnext : id < (m.step op).nextStreamId := by
        rw [step_nextStreamId]
        split <;> omega
      obtain ⟨hrest, hlast⟩ := ih hnext
      refine ⟨?_, hlast⟩
      rw [history, posted, List.mem_append, List.mem_append, not_or, not_or]
      refine ⟨⟨fun hmem => ?_, opened_not_mem_spends id _⟩, hrest⟩
      exact absurd (opened_mem_grants hmem).2 hid.ne

theorem run_nextStreamId_pos (ops : List ManagerOp) : 0 < (run ops).nextStreamId := by
  induction ops using List.reverseRecOn with
  | nil => decide
  | append_singleton ops op ih =>
      rw [run_concat, step_nextStreamId]
      split <;> omega

theorem clampMaxFrameSize_range (value : Nat) :
    minMaxFrameSize ≤ clampMaxFrameSize value ∧ clampMaxFrameSize value ≤ maxMaxFrameSize := by
  rw [clampMaxFrameSize, minMaxFrameSize, maxMaxFrameSize]
  split
  · omega
  · split <;> omega

theorem run_maxFrameSize (ops : List ManagerOp) :
    minMaxFrameSize ≤ (run ops).maxFrameSize ∧ (run ops).maxFrameSize ≤ maxMaxFrameSize := by
  induction ops using List.reverseRecOn with
  | nil => decide
  | append_singleton ops op ih =>
      obtain ⟨m₁, m₂, hphases⟩ := step_phases (run ops) op
      have hsame : m₂.maxFrameSize = (run ops).maxFrameSize := by
        rw [← hphases.limit]
        exact (sends_settings hphases.sends).1
      rw [run_concat]
      rcases hphases.settles.limit with hkept | ⟨value, hset⟩
      · rwa [hkept, hsame]
      · rw [hset]
        exact clampMaxFrameSize_range value

/-! ### Every DATA frame is covered -/

/-- The book a connection starts with. -/
def openingCredit : Credit StreamId := ⟨defaultInitialWindowSize, defaultInitialWindowSize, fun _ => 0⟩

theorem create_matches : create.Matches openingCredit := ⟨rfl, rfl, fun _ hst => absurd hst List.not_mem_nil⟩

/-- The book while `op` follows a run, after the part `pre` of its effects. -/
def creditAt (ops : List ManagerOp) (op : ManagerOp) (pre : List Effect) : Credit StreamId :=
  (openingCredit.postAll (create.history ops)).postAll ((run ops).grants op ++ spends pre)

theorem creditAt_shared (ops : List ManagerOp) (op : ManagerOp) (pre : List Effect) :
    (creditAt ops op pre).shared =
      defaultInitialWindowSize + connectionIncrements (ops ++ [op]) - dataOctets ((run ops).effects ++ pre) := by
  have hgranted := history_sum sum_sharedGrant_grants create ops
  have hspent := history_sum sum_spent_grants create ops
  rw [sum_sharedGrant_spends, add_zero] at hgranted
  rw [sum_spent_spends, List.map_const', List.sum_replicate, nsmul_zero, zero_add] at hspent
  rw [creditAt, Credit.postAll_shared, Credit.postAll_shared, hgranted, hspent]
  rw [connectionIncrements, List.map_append, List.map_append, List.map_append, List.sum_append, List.sum_append, List.sum_append,
    sum_sharedGrant_grants, sum_sharedGrant_spends, sum_spent_grants, sum_spent_spends, dataOctets_append, List.map_singleton,
    List.sum_singleton, Nat.cast_add]
  show defaultInitialWindowSize + (ops.map ManagerOp.connectionIncrement).sum - dataOctets (run ops).effects +
    (op.connectionIncrement + 0) - (0 + dataOctets pre) = _
  omega

theorem creditAt_initial (ops : List ManagerOp) (op : ManagerOp) (pre : List Effect) :
    (creditAt ops op pre).initial = latestInitialWindowSize (ops ++ [op]) := by
  rw [creditAt, Credit.postAll_append, postAll_spends_initial, postAll_grants_initial, postAll_history_initial,
    latestInitialWindowSize, List.foldl_append]
  rfl

/-- A stream's balance counts from the operation that opened it. -/
theorem creditAt_own (before after : List ManagerOp) (op : ManagerOp) (pre : List Effect) :
    let ops := before ++ .openStream :: after
    let id := (run before).nextStreamId
    (creditAt ops op pre).own id =
      latestInitialWindowSize (ops ++ [op]) + streamIncrements id (after ++ [op]) -
        dataOctetsOn id ((run ops).effects.drop (run before).effects.length ++ pre) := by
  intro ops id
  let opened := (run before).step .openStream
  let c := openingCredit.postAll (create.history before)
  let events := opened.history after ++ ((run ops).grants op ++ spends pre)
  have hcredit : creditAt ops op pre = (c.post (.opened id)).postAll events := by
    have hposted : (run before).posted .openStream = [.opened id] := by
      have hquiet : (run before).newEffects .openStream = [] := List.drop_length
      rw [posted, hquiet]
      rfl
    have hhistory : create.history ops = create.history before ++ (.opened id :: opened.history after) := by
      rw [history_append, history]
      exact congrArg (fun posted => create.history before ++ (posted ++ opened.history after)) hposted
    rw [creditAt, hhistory, Credit.postAll_append openingCredit, ← Credit.postAll_append]
    rfl
  have hfresh : .opened id ∉ events := by
    obtain ⟨hhistory, hlast⟩ := opened_not_mem_history (show id < opened.nextStreamId from Nat.lt_add_of_pos_right (by decide)) after
    have hlater : id < (run ops).nextStreamId := by
      rw [run_append]
      exact hlast
    rw [List.mem_append, List.mem_append, not_or, not_or]
    exact ⟨hhistory, fun hmem => absurd (opened_mem_grants hmem).2 hlater.ne, opened_not_mem_spends id pre⟩
  have hpositive : id ≠ 0 := (run_nextStreamId_pos before).ne'
  have hgranted := history_sum (sum_ownGrant_grants hpositive) opened after
  have hspent := history_sum (sum_spentBy_grants id) opened after
  have hrun : opened.steps after = run ops := (run_append before (.openStream :: after)).symm
  rw [sum_ownGrant_spends, add_zero] at hgranted
  rw [sum_spentBy_spends, List.map_const', List.sum_replicate, nsmul_zero, zero_add, hrun] at hspent
  have hinitial := creditAt_initial ops op pre
  rw [hcredit] at hinitial
  rw [hcredit, Credit.own_of_opened c hfresh, hinitial]
  simp only [events, List.map_append, List.sum_append, hgranted, hspent, sum_ownGrant_grants hpositive, sum_ownGrant_spends,
    sum_spentBy_grants, sum_spentBy_spends, streamIncrements, List.map_singleton, List.sum_singleton, dataOctetsOn_append,
    Nat.cast_add, add_zero, zero_add]
  rfl

end Manager

/-- While `op` follows the run of `before`, an `openStream` and `after`, a DATA frame goes out on the stream
that `openStream` created. `pre` is what `op` did before. -/
structure SendsOnClientStream (before after : List ManagerOp) (op : ManagerOp) (pre : List Effect) (frame : DataFrame) : Prop where
  opened : frame.streamId = (Manager.run before).nextStreamId
  client : ∃ stream, (Manager.run (before ++ .openStream :: after)).streams.get frame.streamId = some stream ∧
    stream.isPushPromise = false
  sent : ∃ post, (Manager.run (before ++ .openStream :: after)).newEffects op = pre ++ .sendFrame (.data frame) :: post

/-- In every run every DATA frame on a client stream is within the frame size in force, which keeps to its
range, and within both windows the peer has granted so far less what was sent so far. -/
theorem data_within_windows (before after : List ManagerOp) (op : ManagerOp) (pre : List Effect) (frame : DataFrame)
    (hsends : SendsOnClientStream before after op pre frame) :
    let ops := before ++ .openStream :: after
    1 ≤ frame.payload.length ∧ frame.payload.length ≤ (Manager.run ops).maxFrameSize ∧
      (minMaxFrameSize ≤ (Manager.run ops).maxFrameSize ∧ (Manager.run ops).maxFrameSize ≤ maxMaxFrameSize) ∧
      frame.payload.length ≤
        65535 + connectionIncrements (ops ++ [op]) - dataOctets ((Manager.run ops).effects ++ pre) ∧
      frame.payload.length ≤
        latestInitialWindowSize (ops ++ [op]) + streamIncrements frame.streamId (after ++ [op]) -
          dataOctetsOn frame.streamId ((Manager.run ops).effects.drop (Manager.run before).effects.length ++ pre) := by
  intro ops
  obtain ⟨stream, hget, hclient⟩ := hsends.client
  obtain ⟨post, hsent⟩ := hsends.sent
  obtain ⟨hpos, hlimit, hshared, hown⟩ :=
    Manager.step_covered (Manager.steps_matches Manager.create_matches ops) hsent hget hclient
  refine ⟨hpos, hlimit, Manager.run_maxFrameSize ops, hshared.trans_eq ?_, hown.trans_eq ?_⟩
  · exact Manager.creditAt_shared ops op pre
  · rw [hsends.opened]
    exact Manager.creditAt_own before after op pre

/-- The peer sets the initial window to three octets, and two of them go out. -/
def uploadOps : List ManagerOp :=
  [.dispatch (.settings ⟨0, 0, false, SettingsMap.empty.set 0x4 3, none, false⟩), .sendData 1 [0x61, 0x62] false]

/-- Of two more octets the last of the window goes out. -/
theorem data_within_windows_upload :
    1 ≤ 1 ∧ 1 ≤ (Manager.run (.openStream :: uploadOps)).maxFrameSize ∧
      (minMaxFrameSize ≤ (Manager.run (.openStream :: uploadOps)).maxFrameSize ∧
        (Manager.run (.openStream :: uploadOps)).maxFrameSize ≤ maxMaxFrameSize) ∧
      (1 : Int) ≤ 65535 + connectionIncrements (.openStream :: (uploadOps ++ [.sendData 1 [0x63, 0x64] true])) -
        dataOctets ((Manager.run (.openStream :: uploadOps)).effects ++ []) ∧
      (1 : Int) ≤ latestInitialWindowSize (.openStream :: (uploadOps ++ [.sendData 1 [0x63, 0x64] true])) +
        streamIncrements 1 (uploadOps ++ [.sendData 1 [0x63, 0x64] true]) -
          dataOctetsOn 1 ((Manager.run (.openStream :: uploadOps)).effects.drop 0 ++ []) :=
  data_within_windows [] uploadOps (.sendData 1 [0x63, 0x64] true) [] ⟨0, 1, [0x63]⟩
    ⟨rfl, by decide +kernel, [], by decide +kernel⟩

end BrowsercoreHttp2
