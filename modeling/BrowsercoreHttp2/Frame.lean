import BrowsercoreHttp2.Types

/-!
# The frame parser

`parseFrame` reads one frame off a buffer that holds at least its octets. Fields are read big-endian
through a `DataView`, and a read past the end of the payload is a `RangeError`.
-/

namespace BrowsercoreHttp2

def frameHeaderLength : Nat := 9

def defaultMaxFrameSize : Nat := 16384

structure FrameHeader where
  type : Nat
  flags : Nat
  streamId : StreamId
  length : Nat
  deriving DecidableEq

def bigEndian (octets : Bytes) : Nat := octets.foldl (fun n b => n * 256 + b.toNat) 0

/-- Read an unsigned integer of `width` octets from a view. -/
def getUint (width : Nat) (view : Bytes) (offset : Nat) : Except JsError Nat :=
  if offset + width ≤ view.length then .ok (bigEndian ((view.drop offset).take width)) else .error .range

def getUint32 : Bytes → Nat → Except JsError Nat := getUint 4

def getBigUint64 : Bytes → Nat → Except JsError Nat := getUint 8

def parseFrameHeader (buf : Bytes) : Except JsError FrameHeader :=
  match buf with
  | l0 :: l1 :: l2 :: type :: flags :: s0 :: s1 :: s2 :: s3 :: _ =>
      .ok
        { type := type.toNat
          flags := flags.toNat
          streamId := bigEndian [s0, s1, s2, s3] &&& 0x7fffffff
          length := l0.toNat <<< 16 ||| l1.toNat <<< 8 ||| l2.toNat }
  | _ => .error (.http2 (.frameParse 0))

/-- Narrow a type byte to the frame types of RFC 7540. -/
def validateFrameType : Nat → Option FrameType
  | 0x0 => some .data
  | 0x1 => some .headers
  | 0x2 => some .priority
  | 0x3 => some .rstStream
  | 0x4 => some .settings
  | 0x5 => some .pushPromise
  | 0x6 => some .ping
  | 0x7 => some .goaway
  | 0x8 => some .windowUpdate
  | 0x9 => some .continuation
  | _ => none

/-- The settings loop: six octets at a time, a later value replacing an earlier one of its id. -/
def readSettings (settings : SettingsMap) : Bytes → SettingsMap
  | i0 :: i1 :: v0 :: v1 :: v2 :: v3 :: rest =>
      readSettings (settings.set (bigEndian [i0, i1]) (bigEndian [v0, v1, v2, v3])) rest
  | _ => settings

def decodeFrame (type flags : Nat) (streamId : StreamId) (payload : Bytes) : Except JsError Frame :=
  match validateFrameType type with
  -- An unknown type is handed on as a generic frame, and that frame is a DATA frame.
  | none => .ok (.data { flags, streamId, payload })
  | some .data => .ok (.data { flags, streamId, payload })
  | some .headers =>
      .ok (.headers
        { flags, streamId
          endHeaders := flags &&& 0x4 ≠ 0
          endStream := flags &&& 0x1 ≠ 0
          padded := flags &&& 0x8 ≠ 0
          payload })
  | some .priority => do
      let depRaw ← getUint32 payload 0
      return .priority
        { flags, streamId
          exclusive := depRaw &&& 0x80000000 ≠ 0
          streamDependency := depRaw &&& 0x7fffffff
          weight := (payload[4]?.map UInt8.toNat).getD 0 }
  | some .rstStream => do
      let errorCode ← getUint32 payload 0
      return .rstStream { flags, streamId, errorCode }
  | some .settings =>
      .ok (.settings
        { flags, streamId := 0
          ack := flags &&& 0x1 ≠ 0
          settings := readSettings .empty payload })
  | some .pushPromise => do
      let promisedRaw ← getUint32 payload 0
      return .pushPromise
        { flags, streamId
          endHeaders := flags &&& 0x4 ≠ 0
          padded := flags &&& 0x8 ≠ 0
          promisedStreamId := promisedRaw &&& 0x7fffffff
          payload := payload.drop 4 }
  | some .ping => do
      let opaqueData ← getBigUint64 payload 0
      return .ping { flags, streamId := 0, ack := flags &&& 0x1 ≠ 0, opaqueData }
  | some .goaway => do
      let lastStreamId ← getUint32 payload 0
      let errorCode ← getUint32 payload 4
      return .goaway
        { flags, streamId := 0
          lastStreamId := lastStreamId &&& 0x7fffffff
          errorCode
          debugData := payload.drop 8 }
  | some .windowUpdate => do
      let increment ← getUint32 payload 0
      return .windowUpdate { flags, streamId, windowSizeIncrement := (increment &&& 0x7fffffff : Nat) }
  | some .continuation => .ok (.continuation { flags, streamId, endHeaders := flags &&& 0x4 ≠ 0, payload })

def parseFrame (buf : Bytes) : Except JsError Frame := do
  let header ← parseFrameHeader buf
  let payloadStart := frameHeaderLength
  let payloadEnd := payloadStart + header.length
  if buf.length < payloadEnd then .error (.http2 (.frameParse payloadStart))
  else decodeFrame header.type header.flags header.streamId ((buf.drop payloadStart).take header.length)

/-! ### Reading headers -/

theorem parseFrameHeader_append {buf : Bytes} (rest : Bytes) (h : frameHeaderLength ≤ buf.length) :
    parseFrameHeader (buf ++ rest) = parseFrameHeader buf := by
  match buf, h with
  | _ :: _ :: _ :: _ :: _ :: _ :: _ :: _ :: _ :: _, _ => rfl

theorem parseFrameHeader_ok_iff {buf : Bytes} :
    (∃ header, parseFrameHeader buf = .ok header) ↔ frameHeaderLength ≤ buf.length := by
  constructor
  · rintro ⟨header, h⟩
    unfold parseFrameHeader at h
    split at h
    · simp [frameHeaderLength]
    · simp at h
  · intro h
    match buf, h with
    | _ :: _ :: _ :: _ :: _ :: _ :: _ :: _ :: _ :: _, _ => exact ⟨_, rfl⟩

theorem validateFrameType_eq_none_iff {type : Nat} : validateFrameType type = none ↔ 0x9 < type := by
  constructor
  · intro h
    unfold validateFrameType at h
    split at h <;> simp_all
    omega
  · intro h
    unfold validateFrameType
    split <;> first | omega | rfl

end BrowsercoreHttp2
