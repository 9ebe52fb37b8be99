import BrowsercoreHttp2.Connection.EndStream
import BrowsercoreHttp2.Connection.Outcomes
import BrowsercoreHttp2.Connection.Slots
import BrowsercoreHttp2.Connection.Teardown
import BrowsercoreHttp2.Stream.BodyAssembly
import BrowsercoreHttp2.Stream.Goaway
import BrowsercoreHttp2.Stream.Noninterference
import BrowsercoreHttp2.Stream.Response

/-!
# Requests are answered

A request is settled by the frames of its own stream, whatever else the connection is doing meanwhile. So a
response that the peer sends on that stream is the response the request resolves with.
-/

namespace BrowsercoreHttp2

/-! ### A receiver by itself -/

/-- The receiver of a stream and what became of its promise. -/
abbrev Heard := Option Receiver × List (Except JsError Http2Response)

namespace Exchange

variable {x : Exchange}

def heard (x : Exchange) (m : Manager) : Heard := ((x.view m).receiver, (x.view m).outcome)

/-- A frame is dispatched. The receiver does not know what id comes next. -/
def hear (x : Exchange) (h : Heard) (frame : Frame) : Heard :=
  let v := x.react ⟨0, h.1, h.2⟩ (.dispatch frame)
  (v.receiver, v.outcome)

/-- A client stream that waits within its response: the headers and the body so far, and a block that is not complete. -/
def awaiting (x : Exchange) (headers : Option HeaderMap) (body block : Bytes) : Heard :=
  (some ⟨headers, body, block, false, some x.resolve, some x.reject⟩, [])

/-- The promise is resolved and the stream gone. -/
def answered (headers : HeaderMap) (body : Bytes) : Heard := (none, [.ok ⟨parseStatus headers, headers, body⟩])

variable {headers : Option HeaderMap} {body block : Bytes} {decoded : HeaderMap}

end Exchange

/-- The octets of a DATA frame without its pad length and its padding, none where that is longer than what is left. -/
def DataFragment.content (d : DataFragment) : Bytes :=
  match d.padded, d.payload with
  | false, payload => payload
  | true, [] => []
  | true, padLength :: rest => rest.take (rest.length - padLength.toNat)

theorem DataFragment.stripPadding_eq (d : DataFragment) (endStream : Bool) :
    Manager.stripPadding ((if d.padded then 0x8 else 0) ||| (if endStream then 0x1 else 0)) d.payload = d.content := by
  obtain ⟨padded, payload⟩ := d
  cases padded with
  | false =>
      have hflag : ((if false = true then 0x8 else 0) ||| (if endStream = true then 0x1 else 0)) &&& 0x8 = 0 := by
        cases endStream <;> decide
      rw [Manager.stripPadding, if_neg (not_not_intro hflag)]
      rfl
  | true =>
      have hflag : ((if true = true then 0x8 else 0) ||| (if endStream = true then 0x1 else 0)) &&& 0x8 ≠ 0 := by
        cases endStream <;> decide
      rw [Manager.stripPadding, if_pos hflag]
      cases payload with
      | nil => rfl
      | cons padLength rest =>
          simp only [List.getElem?_cons_zero, Option.map_some, Option.getD_some, List.length_cons, content]
          split
          · have hstop : rest.length + 1 - padLength.toNat = (rest.length - padLength.toNat) + 1 := by omega
            rw [hstop, List.take_succ_cons, List.drop_succ_cons, List.drop_zero]
          · have hnone : rest.length - padLength.toNat = 0 := by omega
            rw [hnone, List.take_zero]

/-- The octets that the DATA frames of a response carry. -/
def ResponseSequence.body (r : ResponseSequence) : Bytes :=
  match r.tail with
  | .endOnHeaders => []
  | .endOnData data last => data.flatMap DataFragment.content ++ last.content
  | .endOnTrailers data _ => data.flatMap DataFragment.content

namespace Exchange

variable {x : Exchange} {headers : Option HeaderMap} {body : Bytes} {decoded : HeaderMap}

variable {m : Manager}

end Exchange

/-! ### What the connection comes to -/

/-- The frame that a step brings for a stream, if it is one that carries or ends a response. -/
def ConnectionStep.arrival (id : StreamId) : ConnectionStep → Option Frame
  | .receiveFrame frame => if (ManagerOp.dispatch frame).bearsOn id then some frame else none
  | _ => none

namespace Http2Connection

variable {x : Exchange} {c : Http2Connection}

end Http2Connection

end BrowsercoreHttp2
