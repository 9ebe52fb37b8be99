import BrowsercoreHttp2.Serializer
import BrowsercoreHttp2.Stream.Changes

/-!
# The layout of PUSH_PROMISE

With the PADDED flag a PUSH_PROMISE starts with the pad length and ends with the padding, and the promised id and the
fragment stand in between. The parser records the flag and reads the id from the first four octets in either case, and the
manager takes what follows them for the fragment.
-/

namespace BrowsercoreHttp2

/-- A pushed stream that was fed its first piece of a header block. -/
def Manager.promisedStream (id : StreamId) (fragment : Bytes) (endHeaders : Bool) : ManagedStream :=
  let promised := (newPushStream id).pushHeaderBytes fragment
  if endHeaders then promised.decodePendingHeaders.1 else promised

/-- A PUSH_PROMISE as a peer lays it out. -/
structure PushPromiseLayout where
  streamId : StreamId
  promisedStreamId : StreamId
  fragment : Bytes
  endHeaders : Bool
  padding : Option Bytes
  streamId_lt : streamId < 2 ^ 31
  promisedStreamId_lt : promisedStreamId < 2 ^ 31
  padding_le : ∀ octets ∈ padding, octets.length ≤ 255
  length_lt : padding.elim 0 (fun octets => 1 + octets.length) + 4 + fragment.length < 2 ^ 24

namespace PushPromiseLayout

variable (p : PushPromiseLayout)

def flags : Nat := (if p.endHeaders then 0x4 else 0) ||| (if p.padding.isSome then 0x8 else 0)

def unpadded : Bytes := octetsOf 4 p.promisedStreamId ++ p.fragment

def payload : Bytes := p.padding.elim p.unpadded fun octets => UInt8.ofNat octets.length :: (p.unpadded ++ octets)

def octets : Bytes := frameOctets 0x5 p.flags p.streamId p.payload

/-- The frame is parsed, and dispatching it opens the promised stream and feeds the fragment, and nothing else, to its
header block. -/
def ReadBy (m : Manager) : Prop :=
  ∃ frame, parseFrame p.octets = .ok (.pushPromise frame) ∧ frame.payload = p.fragment ∧ frame.endHeaders = p.endHeaders ∧
    (m.dispatch (.pushPromise frame)).1.streams = m.streams.set (Manager.promisedStream p.promisedStreamId p.fragment p.endHeaders)

/-! ### Parsing -/

theorem unpadded_length : p.unpadded.length = 4 + p.fragment.length := by
  rw [unpadded, List.length_append, octetsOf_length]

theorem payload_length : p.payload.length < 2 ^ 24 := by
  have hlength := p.length_lt
  have hunpadded := p.unpadded_length
  rw [payload]
  cases hpadding : p.padding with
  | none =>
      rw [hpadding, Option.elim_none] at hlength
      rw [Option.elim_none]
      omega
  | some octets =>
      rw [hpadding, Option.elim_some] at hlength
      rw [Option.elim_some, List.length_cons, List.length_append]
      omega

theorem flags_lt : p.flags < 2 ^ 8 := by
  rw [flags]
  cases p.endHeaders <;> cases p.padding.isSome <;> decide

theorem flags_endHeaders : decide (p.flags &&& 0x4 ≠ 0) = p.endHeaders := by
  rw [flags]
  cases p.endHeaders <;> cases p.padding.isSome <;> decide

theorem parseFrame_octets {raw : Nat} (hraw : getUint32 p.payload 0 = .ok raw) :
    parseFrame p.octets = .ok (.pushPromise ⟨p.flags, p.streamId, p.endHeaders, decide (p.flags &&& 0x8 ≠ 0), raw &&& 0x7fffffff,
      p.payload.drop 4⟩) := by
  have hparse := @parseFrame_frameOctets 0x5 p.flags p.streamId p.payload (by decide) p.flags_lt p.streamId_lt p.payload_length []
  rw [List.append_nil] at hparse
  have hdecode : decodeFrame 0x5 p.flags p.streamId p.payload = .ok (.pushPromise ⟨p.flags, p.streamId,
      decide (p.flags &&& 0x4 ≠ 0), decide (p.flags &&& 0x8 ≠ 0), raw &&& 0x7fffffff, p.payload.drop 4⟩) := by
    simp only [decodeFrame, validateFrameType, hraw]
    rfl
  rw [octets, hparse, hdecode, p.flags_endHeaders]

theorem getUint32_unpadded (h : p.padding = none) : getUint32 p.payload 0 = .ok p.promisedStreamId := by
  rw [payload, h, Option.elim_none, unpadded]
  apply getUint_first
  have hlt : p.promisedStreamId < 2 ^ 31 := p.promisedStreamId_lt
  exact hlt.trans (by decide)

theorem getUint32_payload : ∃ raw, getUint32 p.payload 0 = .ok raw := by
  have hunpadded := p.unpadded_length
  have hlong : 0 + 4 ≤ p.payload.length := by
    rw [payload]
    cases p.padding with
    | none =>
        rw [Option.elim_none]
        omega
    | some octets =>
        rw [Option.elim_some, List.length_cons, List.length_append]
        omega
  rw [getUint32, getUint, if_pos hlong]
  exact ⟨_, rfl⟩

theorem promisedStreamId_masked : p.promisedStreamId &&& 0x7fffffff = p.promisedStreamId := by
  rw [and_low31, Nat.mod_eq_of_lt p.promisedStreamId_lt]

/-- With padding the low octet of the id goes to the fragment, and so does the padding. -/
theorem payload_drop_padded {octets : Bytes} (h : p.padding = some octets) :
    (p.payload.drop 4).length = p.fragment.length + octets.length + 1 := by
  have hunpadded := p.unpadded_length
  rw [payload, h, Option.elim_some, List.length_drop, List.length_cons, List.length_append]
  omega

end PushPromiseLayout

namespace Manager

/-- A PUSH_PROMISE opens the stream of its id and feeds it its payload. -/
theorem handlePushPromise_opens (m : Manager) (frame : PushPromiseFrame) :
    (m.handlePushPromise frame).1.streams =
      m.streams.set (promisedStream frame.promisedStreamId frame.payload frame.endHeaders) := by
  have hpushed : ∀ outcome, ((newPushStream frame.promisedStreamId).pushHeaderBytes frame.payload).decodePendingHeaders = outcome →
      (m.insertStream outcome.1).streams = m.streams.set ((newPushStream frame.promisedStreamId).pushHeaderBytes
        frame.payload).decodePendingHeaders.1 := by
    intro outcome houtcome
    rw [houtcome]
    rfl
  rw [handlePushPromise, promisedStream]
  dsimp only
  split
  · split
    · rename_i st e hdecode
      exact hpushed (st, some e) hdecode
    · rename_i st hdecode
      exact hpushed (st, none) hdecode
  · rfl

end Manager

/-- In every state, a PUSH_PROMISE opens the promised stream and feeds it exactly the fragment exactly when it is not
padded. -/
theorem pushPromise_read_iff (m : Manager) (p : PushPromiseLayout) : p.ReadBy m ↔ p.padding = none := by
  constructor
  · rintro ⟨frame, hparse, hfragment, -⟩
    cases hpadding : p.padding with
    | none => rfl
    | some octets =>
        have hlong := p.payload_drop_padded hpadding
        obtain ⟨raw, hraw⟩ := p.getUint32_payload
        have hframe := Except.ok.inj (hparse.symm.trans (p.parseFrame_octets hraw))
        simp only [Frame.pushPromise.injEq] at hframe
        have hpayload : frame.payload = p.payload.drop 4 := by rw [hframe]
        rw [← hpayload, hfragment] at hlong
        omega
  · intro hpadding
    have hread := p.parseFrame_octets (p.getUint32_unpadded hpadding)
    have hfragment : p.payload.drop 4 = p.fragment := by
      rw [PushPromiseLayout.payload, hpadding, Option.elim_none, PushPromiseLayout.unpadded, List.drop_left' (octetsOf_length 4 _)]
    rw [p.promisedStreamId_masked, hfragment] at hread
    exact ⟨_, hread, rfl, rfl, m.handlePushPromise_opens _⟩

/-- A PUSH_PROMISE of stream 2 with a pad length of zero. -/
def paddedPromise : PushPromiseLayout where
  streamId := 1
  promisedStreamId := 2
  fragment := [0x82]
  endHeaders := false
  padding := some []
  streamId_lt := by decide
  promisedStreamId_lt := by decide
  padding_le := by decide
  length_lt := by decide

/-- The id is read from one octet too early, so stream 0 is opened and fed the octet that is left of it. -/
theorem paddedPromise_opens_stream_zero :
    ¬ paddedPromise.ReadBy Manager.create ∧
      parseFrame paddedPromise.octets = .ok (.pushPromise ⟨0x8, 1, false, true, 0, [0x02, 0x82]⟩) ∧
      (Manager.create.dispatch (.pushPromise ⟨0x8, 1, false, true, 0, [0x02, 0x82]⟩)).1.streams.keys = [0] := by
  have hparse : parseFrame paddedPromise.octets = .ok (.pushPromise ⟨0x8, 1, false, true, 0, [0x02, 0x82]⟩) := by decide +kernel
  refine ⟨?_, hparse, by decide +kernel⟩
  rintro ⟨frame, hread, hfragment, -⟩
  obtain rfl := Frame.pushPromise.inj (Except.ok.inj (hread.symm.trans hparse))
  exact absurd hfragment (by decide)

end BrowsercoreHttp2
