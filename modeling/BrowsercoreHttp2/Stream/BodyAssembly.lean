import BrowsercoreHttp2.Stream.Holds
import BrowsercoreHttp2.Stream.Noninterference

/-!
# How a body is put together

The body of a response is what the DATA frames of its stream carry between their padding, in the order in which they
arrive. Frames of other streams may come in between, and they leave the stream as it is.
-/

namespace BrowsercoreHttp2

open Relation

/-- The frame carries these octets: all of its payload, or what stands between the pad length and the padding, or nothing
where the pad length does not leave room for itself. -/
inductive DataFrame.Carries (frame : DataFrame) : Bytes → Prop
  | unpadded (hflag : frame.flags &&& 0x8 = 0) : frame.Carries frame.payload
  | padded (data padding : Bytes) (hflag : frame.flags &&& 0x8 ≠ 0) (hlength : padding.length ≤ 255)
      (hpayload : frame.payload = UInt8.ofNat padding.length :: (data ++ padding)) : frame.Carries data
  | overlong (hflag : frame.flags &&& 0x8 ≠ 0)
      (hlength : frame.payload.length ≤ (frame.payload.head?.map UInt8.toNat).getD 0) : frame.Carries []

/-- A frame is sent on a stream, or names it: as promised, or as one that will not be served. -/
def Frame.Concerns (id : StreamId) : Frame → Prop
  | .pushPromise frame => frame.streamId = id ∨ frame.promisedStreamId = id
  | .goaway frame => frame.streamId = id ∨ frame.lastStreamId < id
  | frame => frame.streamId = id

theorem Frame.Concerns.of_touches {id : StreamId} {frame : Frame} (h : frame.Touches id) : frame.Concerns id := by
  cases frame with
  | data => exact h
  | headers => exact h
  | rstStream => exact h
  | pushPromise => exact .inr h
  | goaway => exact .inr h
  | _ => exact h.elim

/-- A DATA frame of a stream with what it carries, or another frame. -/
inductive Arrival where
  | part (frame : DataFrame) (data : Bytes)
  | other (frame : Frame)

namespace Arrival

def frame : Arrival → Frame
  | part frame _ => .data frame
  | other frame => frame

def data : Arrival → Bytes
  | part _ data => data
  | other _ => []

/-- DATA frames of the stream come without END_STREAM, and the others do not concern it. -/
def Fits (id : StreamId) : Arrival → Prop
  | part frame data => frame.streamId = id ∧ frame.flags &&& 0x1 = 0 ∧ frame.Carries data
  | other frame => ¬ frame.Concerns id

end Arrival

/-- A client stream with complete headers that waits for the rest of its body. -/
structure ManagedStream.Assembles (callback : Callback) (body : Bytes) (st : ManagedStream) : Prop where
  client : st.isPushPromise = false
  resolve : st.resolve = some callback
  headers : st.headersComplete = true
  unended : st.endStreamSeen = false
  body : st.responseChunks.flatten = body

theorem ManagedStream.Assembles.lasting (callback : Callback) (body : Bytes) : Lasting (Assembles callback body) where
  sends _ _ _ h := { h with }
  collects _ _ h := { h with }
  decodes _ _ h := { h with headers := rfl }
  waits _ h _ hended := by
    rw [h.unended] at hended
    exact absurd hended Bool.false_ne_true

/-! ### Padding -/

theorem DataFrame.Carries.stripPadding_eq {frame : DataFrame} {data : Bytes} (h : frame.Carries data) :
    Manager.stripPadding frame.flags frame.payload = data := by
  cases h with
  | unpadded hflag => rw [Manager.stripPadding, if_neg (not_not_intro hflag)]
  | padded data padding hflag hlength hpayload =>
      have hpad : (UInt8.ofNat padding.length).toNat = padding.length := by
        have hmod : (UInt8.ofNat padding.length).toNat = padding.length % 256 := rfl
        omega
      have hstop : (UInt8.ofNat padding.length :: (data ++ padding)).length - padding.length = data.length + 1 := by
        rw [List.length_cons, List.length_append]
        omega
      rw [Manager.stripPadding, if_pos hflag, hpayload]
      simp only [List.getElem?_cons_zero, Option.map_some, Option.getD_some, hpad, hstop]
      rw [if_pos (Nat.succ_pos _), List.take_succ_cons, List.take_left, List.drop_succ_cons, List.drop_zero]
  | overlong hflag hlength =>
      rw [Manager.stripPadding, if_pos hflag, ← List.head?_eq_getElem?]
      dsimp only
      rw [if_neg]
      omega

/-- Every DATA frame carries something, and what it carries is what is left of it when its padding is stripped. -/
theorem DataFrame.carries_iff (frame : DataFrame) (data : Bytes) :
    frame.Carries data ↔ Manager.stripPadding frame.flags frame.payload = data := by
  refine ⟨fun h => h.stripPadding_eq, ?_⟩
  rintro rfl
  by_cases hflag : frame.flags &&& 0x8 = 0
  · have hwhole := Carries.unpadded hflag
    rw [← hwhole.stripPadding_eq] at hwhole
    exact hwhole
  by_cases hlength : frame.payload.length ≤ (frame.payload.head?.map UInt8.toNat).getD 0
  · have hnothing := Carries.overlong hflag hlength
    rw [← hnothing.stripPadding_eq] at hnothing
    exact hnothing
  cases hpayload : frame.payload with
  | nil =>
      rw [hpayload, List.length_nil] at hlength
      exact absurd (Nat.zero_le _) hlength
  | cons padLen rest =>
      rw [hpayload] at hlength
      simp only [List.head?_cons, Option.map_some, Option.getD_some, List.length_cons] at hlength
      have hrest : (rest.drop (rest.length - padLen.toNat)).length = padLen.toNat := by
        rw [List.length_drop]
        omega
      have hpadded : frame.Carries (rest.take (rest.length - padLen.toNat)) := by
        apply Carries.padded _ (rest.drop (rest.length - padLen.toNat)) hflag
        · rw [hrest]
          exact Nat.lt_succ_iff.mp padLen.toNat_lt
        · rw [hrest, List.take_append_drop, UInt8.ofNat_toNat]
          exact hpayload
      rw [← hpadded.stripPadding_eq, hpayload] at hpadded
      exact hpadded

namespace Manager

open ManagedStream (Assembles)

variable {m : Manager} {st : ManagedStream} {id : StreamId} {callback : Callback} {body : Bytes}

theorem assembles_afterData {frame : DataFrame} {data : Bytes} (h : st.Assembles callback body) (hdata : frame.Carries data) :
    (afterData st frame).Assembles callback (body ++ data) := by
  have hbuffered := afterData_eq st frame
  have hbody : (afterData st frame).responseChunks.flatten = body ++ data := by
    have hreceiver := congrArg Receiver.body (Exchange.afterData_receiver st frame)
    rw [hdata.stripPadding_eq] at hreceiver
    rw [← h.body]
    exact hreceiver
  exact {
    client := by rw [hbuffered, h.client]
    resolve := by rw [hbuffered, h.resolve]
    headers := by rw [hbuffered, h.headers]
    unended := by rw [hbuffered, h.unended]
    body := hbody }

theorem Holds.part (h : m.Holds id (Assembles callback body)) {frame : DataFrame} {data : Bytes} (hid : frame.streamId = id)
    (hflag : frame.flags &&& 0x1 = 0) (hdata : frame.Carries data) :
    (m.handleData frame).Holds id (Assembles callback (body ++ data)) := by
  obtain ⟨st, hget, hst⟩ := h
  rw [← hid] at hget
  obtain ⟨m₁, -, hrun⟩ := handleData_eq hget
  rw [hrun, if_neg (not_not_intro hflag)]
  apply Holds.setStream
  · rw [afterData_eq, Table.key_of_get hget, hid]
  · exact assembles_afterData hst hdata

theorem Holds.arrival (h : m.Holds id (Assembles callback body)) {arrival : Arrival} (hfits : arrival.Fits id) :
    (m.dispatch arrival.frame).1.Holds id (Assembles callback (body ++ arrival.data)) := by
  cases arrival with
  | part frame data => exact h.part hfits.1 hfits.2.1 hfits.2.2
  | other frame =>
      rw [Arrival.data, List.append_nil]
      exact h.other (Assembles.lasting callback body) fun htouches => hfits (.of_touches htouches)

theorem Holds.arrivals (h : m.Holds id (Assembles callback body)) {arrivals : List Arrival}
    (hfits : ∀ a ∈ arrivals, a.Fits id) :
    (m.dispatchAll (arrivals.map Arrival.frame)).Holds id (Assembles callback (body ++ arrivals.flatMap Arrival.data)) := by
  induction arrivals generalizing m body with
  | nil =>
      rw [List.flatMap_nil, List.append_nil]
      exact h
  | cons first rest ih =>
      obtain ⟨hfirst, hrest⟩ := List.forall_mem_cons.mp hfits
      rw [List.map_cons, dispatchAll_cons, List.flatMap_cons, ← List.append_assoc]
      exact ih (h.arrival hfirst) hrest

/-- The DATA frame with END_STREAM resolves the response. -/
theorem Holds.last (h : m.Holds id (Assembles callback body)) {frame : DataFrame} {data : Bytes} (hid : frame.streamId = id)
    (hflag : frame.flags &&& 0x1 ≠ 0) (hdata : frame.Carries data) :
    ∃ response, ResolvedWith m (m.handleData frame) callback response ∧ response.body = body ++ data := by
  obtain ⟨st, hget, hst⟩ := h
  rw [← hid] at hget
  obtain ⟨m₁, haccounted, hrun⟩ := handleData_eq hget
  have hpart := assembles_afterData hst hdata
  let ended := { afterData st frame with endStreamSeen := true }.transitionOnEndStream
  have hended : ended = { afterData st frame with endStreamSeen := true, state := ended.state } :=
    ManagedStream.transitionOnEndStream_eq _
  have hresolved :
      ResolvedWith (m₁.setStream ended) ((m₁.setStream ended).maybeResolveResponse ended) callback ended.response := by
    apply maybeResolveResponse_client
    · rw [hended, hpart.client]
    · rw [hended, hpart.headers]
    · rw [hended]
    · rw [hended, hpart.resolve]
  refine ⟨ended.response, ?_, ?_⟩
  · rw [hrun, if_pos hflag]
    exact haccounted.credits.onlySends.resolvedWith hresolved
  · rw [hended]
    exact hpart.body

end Manager

/-- A client stream whose headers are complete and whose response is waited for receives DATA frames, the last with
END_STREAM, with frames that do not concern it in between: the last frame resolves the response, and its body is what
the stream had buffered and then what the frames carry, in the order in which they arrive. -/
theorem body_assembled (m : Manager) (st : ManagedStream) (callback : Callback) (arrivals : List Arrival) (last : DataFrame)
    (data : Bytes) (hget : m.streams.get st.id = some st) (hclient : st.isPushPromise = false)
    (hresolve : st.resolve = some callback) (hheaders : st.headersComplete = true) (hunended : st.endStreamSeen = false)
    (hfits : ∀ a ∈ arrivals, a.Fits st.id) (hlast : last.streamId = st.id) (hflag : last.flags &&& 0x1 ≠ 0) (hdata : last.Carries data) :
    ∃ response,
      Manager.ResolvedWith (m.dispatchAll (arrivals.map Arrival.frame))
        (m.dispatchAll (arrivals.map Arrival.frame ++ [.data last])) callback response ∧
      response.body = st.responseChunks.flatten ++ (arrivals.flatMap Arrival.data ++ data) := by
  have hstart : m.Holds st.id (ManagedStream.Assembles callback st.responseChunks.flatten) :=
    ⟨st, hget, hclient, hresolve, hheaders, hunended, rfl⟩
  obtain ⟨response, hresolved, hbody⟩ := (hstart.arrivals hfits).last hlast hflag hdata
  refine ⟨response, ?_, ?_⟩
  · rw [Manager.dispatchAll_append]
    exact hresolved
  · rw [hbody, List.append_assoc]

/-- A client stream whose headers have arrived. -/
def receivingManager : Manager :=
  Manager.run [.openStream, .expectResponse 1 0 0, .openStream, .dispatch (headersFrame 1 true false [0x88])]

def receivingStream : ManagedStream :=
  { ManagedStream.create 1 ⟨65535, 65535⟩ ⟨65535, 65535⟩ false with
    headersComplete := true
    responseHeaders := Table.empty.set ("status", "200")
    resolve := some 0
    reject := some 0 }

/-- Two octets and one of padding, a frame of another stream, padding alone, and a pad length that is too long. -/
def arrivingBody : List Arrival :=
  [.part ⟨0x8, 1, [1, 0x61, 0x62, 0]⟩ [0x61, 0x62], .other (.data ⟨0, 3, [0x7a]⟩), .part ⟨0x8, 1, [2, 0, 0]⟩ [],
    .part ⟨0x8, 1, [3, 0, 0]⟩ []]

theorem body_assembled_arriving :
    ∃ response,
      Manager.ResolvedWith (receivingManager.dispatchAll (arrivingBody.map Arrival.frame))
        (receivingManager.dispatchAll (arrivingBody.map Arrival.frame ++ [.data ⟨0x1, 1, [0x63]⟩])) 0 response ∧
      response.body = receivingStream.responseChunks.flatten ++ (arrivingBody.flatMap Arrival.data ++ [0x63]) := by
  apply body_assembled receivingManager receivingStream 0 arrivingBody ⟨0x1, 1, [0x63]⟩ [0x63]
  · decide +kernel
  · decide
  · decide
  · decide
  · decide
  · simp only [arrivingBody, List.forall_mem_cons, List.not_mem_nil, false_implies, implies_true, and_true]
    refine ⟨⟨rfl, by decide, ?_⟩, (by decide : (3 : StreamId) ≠ 1),
      ⟨rfl, by decide, ?_⟩, ⟨rfl, by decide, ?_⟩⟩ <;> exact (DataFrame.carries_iff _ _).mpr (by decide)
  · decide
  · decide
  · exact .unpadded (by decide)

end BrowsercoreHttp2
