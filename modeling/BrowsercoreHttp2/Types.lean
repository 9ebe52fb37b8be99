import BrowsercoreHttp2.Hpack.Helpers

/-!
# Frames, streams, responses and errors

The data the frame layer, the stream manager and the connection exchange. Numbers that come off the wire
are unsigned and are natural numbers here. Window sizes go below zero and increments handed in by a
caller may, so those are integers. All of them are exact, as JavaScript's numbers are below 2^53.
-/

namespace BrowsercoreHttp2

abbrev StreamId := Nat

/-! ### Errors -/

inductive Http2Error where
  | goawayReceived (lastStreamId : StreamId) (errorCode : Nat) (debugData : Bytes)
  | rstStream (streamId : StreamId) (errorCode : Nat)
  | frameParse (offset : Nat)
  | settingsAckTimeout (timeoutMs : Nat)
  | connectionClosed
  | streamClosed (streamId : StreamId)
  deriving DecidableEq

def Http2Error.message : Http2Error → String
  | .goawayReceived lastStreamId errorCode _ =>
      "GOAWAY received: lastStreamId=" ++ toString lastStreamId ++ ", errorCode=" ++ toString errorCode
  | .rstStream streamId errorCode =>
      "RST_STREAM on stream " ++ toString streamId ++ ": errorCode=" ++ toString errorCode
  | .frameParse offset => "Frame parse error at offset " ++ toString offset
  | .settingsAckTimeout timeoutMs => "SETTINGS ACK not received within " ++ toString timeoutMs ++ "ms"
  | .connectionClosed => "connection is closed"
  | .streamClosed streamId => "stream " ++ toString streamId ++ " is closed"

/-- Anything that may be thrown: the two typed families, the `RangeError` of a `DataView` read past the
end, and whatever the transport rejects with. -/
inductive JsError where
  | http2 (error : Http2Error)
  | hpack (error : HpackError)
  | range
  | transport (text : String)
  deriving DecidableEq

/-! ### Settings -/

/-- An object with integer keys: its entries are enumerated in ascending key order. -/
structure SettingsMap where
  entries : List (Nat × Nat)
  ascending : (entries.map Prod.fst).Pairwise (· < ·)

namespace SettingsMap

@[ext] theorem ext {s t : SettingsMap} (h : s.entries = t.entries) : s = t := by
  cases s; cases t; simp_all

instance : DecidableEq SettingsMap := fun s t => decidable_of_iff (s.entries = t.entries) ⟨ext, congrArg entries⟩

def empty : SettingsMap := ⟨[], .nil⟩

def insertEntry (key value : Nat) : List (Nat × Nat) → List (Nat × Nat)
  | [] => [(key, value)]
  | (k, v) :: rest =>
      if key < k then (key, value) :: (k, v) :: rest
      else if key = k then (key, value) :: rest
      else (k, v) :: insertEntry key value rest

theorem mem_insertEntry {key value : Nat} {entries : List (Nat × Nat)} {k : Nat}
    (h : k ∈ (insertEntry key value entries).map Prod.fst) : k = key ∨ k ∈ entries.map Prod.fst := by
  induction entries with
  | nil => simpa [insertEntry] using h
  | cons entry rest ih =>
      obtain ⟨k', v'⟩ := entry
      simp only [insertEntry] at h
      split at h
      · simpa using h
      · split at h
        · simp only [List.map_cons, List.mem_cons] at h ⊢
          tauto
        · simp only [List.map_cons, List.mem_cons] at h ⊢
          rcases h with h | h
          · exact .inr (.inl h)
          · rcases ih h with h | h
            · exact .inl h
            · exact .inr (.inr h)

theorem insertEntry_ascending (key value : Nat) {entries : List (Nat × Nat)}
    (h : (entries.map Prod.fst).Pairwise (· < ·)) : ((insertEntry key value entries).map Prod.fst).Pairwise (· < ·) := by
  induction entries with
  | nil => simp [insertEntry]
  | cons entry rest ih =>
      obtain ⟨k, v⟩ := entry
      simp only [List.map_cons, List.pairwise_cons] at h
      simp only [insertEntry]
      split
      · rename_i hlt
        simp only [List.map_cons, List.pairwise_cons, List.mem_cons]
        refine ⟨?_, h⟩
        rintro k' (rfl | hk')
        · exact hlt
        · exact hlt.trans (h.1 k' hk')
      · split
        · rename_i heq
          simpa [heq] using h
        · simp only [List.map_cons, List.pairwise_cons]
          refine ⟨fun k' hk' => ?_, ih h.2⟩
          rcases mem_insertEntry hk' with rfl | hk'
          · omega
          · exact h.1 k' hk'

def set (settings : SettingsMap) (key value : Nat) : SettingsMap :=
  ⟨insertEntry key value settings.entries, insertEntry_ascending key value settings.ascending⟩

def get (settings : SettingsMap) (key : Nat) : Option Nat := settings.entries.lookup key

theorem lookup_entry (key value k : Nat) (rest : List (Nat × Nat)) :
    ((key, value) :: rest).lookup k = if k = key then some value else rest.lookup k := by
  rw [List.lookup_cons]
  split <;> simp_all

theorem lookup_insertEntry (key value k : Nat) (entries : List (Nat × Nat)) :
    (insertEntry key value entries).lookup k = if k = key then some value else entries.lookup k := by
  induction entries with
  | nil => exact lookup_entry key value k []
  | cons entry rest ih =>
      obtain ⟨k', v'⟩ := entry
      simp only [insertEntry]
      split
      · exact lookup_entry key value k _
      · split
        · rename_i heq
          subst heq
          by_cases hk : k = key <;> simp [lookup_entry, hk]
        · rename_i hne
          by_cases hk : k = k' <;> simp [lookup_entry, ih, hk, Ne.symm hne]

@[simp] theorem get_set (settings : SettingsMap) (key value k : Nat) :
    (settings.set key value).get k = if k = key then some value else settings.get k :=
  lookup_insertEntry key value k settings.entries

@[simp] theorem get_empty (k : Nat) : empty.get k = none := rfl

theorem mem_iff_get {settings : SettingsMap} {entry : Nat × Nat} :
    entry ∈ settings.entries ↔ settings.get entry.1 = some entry.2 := by
  obtain ⟨entries, hascending⟩ := settings
  simp only [get]
  induction entries with
  | nil => simp
  | cons first rest ih =>
      simp only [List.map_cons, List.pairwise_cons] at hascending
      rw [List.mem_cons, lookup_entry]
      split
      · rename_i heq
        have hrest : entry ∉ rest := by
          intro hmem
          have := hascending.1 entry.1 (List.mem_map_of_mem hmem)
          omega
        simp only [hrest, or_false, Option.some.injEq]
        exact ⟨fun h => by rw [h], fun h => Prod.ext heq h.symm⟩
      · rename_i hne
        rw [← ih hascending.2, or_iff_right fun h => hne (by rw [h])]

theorem ext_get {s t : SettingsMap} (h : ∀ k, s.get k = t.get k) : s = t := by
  apply ext
  have hmem : ∀ entry, entry ∈ s.entries ↔ entry ∈ t.entries := by
    intro entry
    rw [mem_iff_get, mem_iff_get, h]
  have hsorted : ∀ settings : SettingsMap, settings.entries.Pairwise fun e e' => e.1 < e'.1 := fun settings =>
    List.pairwise_map.mp settings.ascending
  have hnodup : ∀ settings : SettingsMap, settings.entries.Nodup := fun settings =>
    (hsorted settings).imp fun hlt heq => by
      rw [heq] at hlt
      omega
  refine List.Perm.eq_of_pairwise ?_ (hsorted s) (hsorted t) ((List.perm_ext_iff_of_nodup (hnodup s) (hnodup t)).mpr hmem)
  intro e e' _ _ hlt hlt'
  omega

end SettingsMap

/-! ### Frames -/

inductive FrameType where
  | data
  | headers
  | priority
  | rstStream
  | settings
  | pushPromise
  | ping
  | goaway
  | windowUpdate
  | continuation
  deriving DecidableEq

/-- The type byte on the wire. -/
def FrameType.value : FrameType → Nat
  | .data => 0x0
  | .headers => 0x1
  | .priority => 0x2
  | .rstStream => 0x3
  | .settings => 0x4
  | .pushPromise => 0x5
  | .ping => 0x6
  | .goaway => 0x7
  | .windowUpdate => 0x8
  | .continuation => 0x9

structure DataFrame where
  flags : Nat
  streamId : StreamId
  payload : Bytes
  deriving DecidableEq

structure HeadersFrame where
  flags : Nat
  streamId : StreamId
  endHeaders : Bool
  endStream : Bool
  padded : Bool
  payload : Bytes
  deriving DecidableEq

structure PriorityFrame where
  flags : Nat
  streamId : StreamId
  exclusive : Bool
  streamDependency : StreamId
  weight : Nat
  deriving DecidableEq

structure RstStreamFrame where
  flags : Nat
  streamId : StreamId
  errorCode : Nat
  deriving DecidableEq

structure SettingsFrame where
  flags : Nat
  streamId : StreamId
  ack : Bool
  settings : SettingsMap
  settingsOrder : Option (List Nat) := none
  grease : Bool := false
  deriving DecidableEq

structure PushPromiseFrame where
  flags : Nat
  streamId : StreamId
  endHeaders : Bool
  padded : Bool
  promisedStreamId : StreamId
  payload : Bytes
  deriving DecidableEq

structure PingFrame where
  flags : Nat
  streamId : StreamId
  ack : Bool
  opaqueData : Nat
  deriving DecidableEq

structure GoawayFrame where
  flags : Nat
  streamId : StreamId
  lastStreamId : StreamId
  errorCode : Nat
  debugData : Bytes
  deriving DecidableEq

structure WindowUpdateFrame where
  flags : Nat
  streamId : StreamId
  windowSizeIncrement : Int
  deriving DecidableEq

structure ContinuationFrame where
  flags : Nat
  streamId : StreamId
  endHeaders : Bool
  payload : Bytes
  deriving DecidableEq

inductive Frame where
  | data (frame : DataFrame)
  | headers (frame : HeadersFrame)
  | priority (frame : PriorityFrame)
  | rstStream (frame : RstStreamFrame)
  | settings (frame : SettingsFrame)
  | pushPromise (frame : PushPromiseFrame)
  | ping (frame : PingFrame)
  | goaway (frame : GoawayFrame)
  | windowUpdate (frame : WindowUpdateFrame)
  | continuation (frame : ContinuationFrame)
  deriving DecidableEq

def Frame.type : Frame → FrameType
  | .data _ => .data
  | .headers _ => .headers
  | .priority _ => .priority
  | .rstStream _ => .rstStream
  | .settings _ => .settings
  | .pushPromise _ => .pushPromise
  | .ping _ => .ping
  | .goaway _ => .goaway
  | .windowUpdate _ => .windowUpdate
  | .continuation _ => .continuation

def Frame.flags : Frame → Nat
  | .data frame => frame.flags
  | .headers frame => frame.flags
  | .priority frame => frame.flags
  | .rstStream frame => frame.flags
  | .settings frame => frame.flags
  | .pushPromise frame => frame.flags
  | .ping frame => frame.flags
  | .goaway frame => frame.flags
  | .windowUpdate frame => frame.flags
  | .continuation frame => frame.flags

/-- The stream a frame is addressed to, 0 for the connection. -/
def Frame.streamId : Frame → StreamId
  | .data frame => frame.streamId
  | .headers frame => frame.streamId
  | .priority frame => frame.streamId
  | .rstStream frame => frame.streamId
  | .settings frame => frame.streamId
  | .pushPromise frame => frame.streamId
  | .ping frame => frame.streamId
  | .goaway frame => frame.streamId
  | .windowUpdate frame => frame.streamId
  | .continuation frame => frame.streamId

/-! ### Streams and responses -/

inductive StreamCloseReason where
  | rstStream (errorCode : Nat)
  | normal
  | goaway (lastStreamId : StreamId)
  deriving DecidableEq

inductive StreamState where
  | idle
  | localReserved
  | remoteReserved
  | opened
  | localHalfClosed
  | remoteHalfClosed
  | closed (reason : StreamCloseReason)
  deriving DecidableEq

structure FlowControlWindow where
  size : Int
  initialSize : Int
  deriving DecidableEq

structure Http2Request where
  method : String
  scheme : String
  authority : String
  path : String
  headers : HeaderMap
  body : Option Bytes
  deriving DecidableEq

structure Http2Response where
  statusCode : Rat
  headers : HeaderMap
  body : Bytes
  deriving DecidableEq

end BrowsercoreHttp2
