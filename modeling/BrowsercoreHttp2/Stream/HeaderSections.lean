import BrowsercoreHttp2.Serializer
import BrowsercoreHttp2.Stream.Response

/-!
# Padding and priority of HEADERS frames

A HEADERS frame may carry a pad length, a priority section and padding around its header block.
`decodeFrame` notes that it is padded and hands the payload on as it is, and `handleHeaders` collects all
of it, so the HPACK decoder reads the sections as part of the block.
-/

namespace BrowsercoreHttp2

open ManagedStream

/-- The sections around the header block of a padded frame. -/
structure HeaderSections where
  priority : Option { octets : Bytes // octets.length = 5 }
  padding : Bytes
  padding_length_lt : padding.length < 256

namespace HeaderSections

variable (s : HeaderSections)

/-- The payload: pad length, priority, block, padding. -/
def around (block : Bytes) : Bytes :=
  UInt8.ofNat s.padding.length :: ((s.priority.map Subtype.val).getD [] ++ block ++ s.padding)

def flags (endHeaders endStream : Bool) : Nat :=
  (if s.priority.isSome then 0x20 else 0) ||| 0x8 ||| (if endHeaders then 0x4 else 0) ||| (if endStream then 0x1 else 0)

def octets (streamId : StreamId) (endHeaders endStream : Bool) (block : Bytes) : Bytes :=
  frameOctets 0x1 (s.flags endHeaders endStream) streamId (s.around block)

end HeaderSections

/-- The frame with the same two flags and nothing around its block. -/
def plainHeadersOctets (streamId : StreamId) (endHeaders endStream : Bool) (block : Bytes) : Bytes :=
  frameOctets 0x1 ((if endHeaders then 0x4 else 0) ||| (if endStream then 0x1 else 0)) streamId block

/-- What dispatching a frame shows of a stream: the stream in the table, everything that has been sent and
emitted, and whether the dispatch threw. -/
def Manager.shows (m : Manager) (frame : Frame) (streamId : StreamId) : Option ManagedStream × List Effect × Bool :=
  ((m.dispatch frame).1.streams.get streamId, (m.dispatch frame).1.effects, (m.dispatch frame).2.isSome)

namespace Manager

variable {m : Manager} {st : ManagedStream}

theorem dispatch_headers (m : Manager) (frame : HeadersFrame) :
    m.dispatch (.headers frame) = m.dispatch (headersFrame frame.streamId frame.endHeaders frame.endStream frame.payload) := rfl

theorem shows_setStream {frame : Frame} {thrown : Option JsError} (h : m.dispatch frame = (m.setStream st, thrown)) :
    m.shows frame st.id = (some st, m.effects, thrown.isSome) := by
  simp only [shows, h, setStream_streams, Table.get_set_self, setStream_effects]

theorem shows_headers_more (hget : m.streams.get st.id = some st) (endStream : Bool) (payload : Bytes) :
    m.shows (headersFrame st.id false endStream payload) st.id = (some (st.pushHeaderBytes payload), m.effects, false) := by
  refine @shows_setStream m (st.pushHeaderBytes payload) _ none ?_
  simp only [dispatch, headersFrame, handleHeaders, hget, Bool.not_false, if_true]

theorem shows_headers_error (hget : m.streams.get st.id = some st) (endStream : Bool) {payload : Bytes} {e : HpackError}
    (hdecode : decodeHeaders (st.pendingHeaderBytes ++ payload) = .error e) :
    m.shows (headersFrame st.id true endStream payload) st.id =
      (some { st with pendingHeaderBytes := [] }, m.effects, true) :=
  @shows_setStream m { st with pendingHeaderBytes := [] } _ _ (dispatch_headers_error hget endStream hdecode)

theorem shows_headers_ok (hget : m.streams.get st.id = some st) (hstate : st.state ≠ .remoteReserved) (endStream : Bool)
    {payload : Bytes} {headers : HeaderMap} (hdecode : decodeHeaders (st.pendingHeaderBytes ++ payload) = .ok headers) :
    m.shows (headersFrame st.id true endStream payload) st.id =
      let m' := (m.setStream (afterHeaders st endStream headers)).maybeResolveResponse (afterHeaders st endStream headers)
      (m'.streams.get st.id, m'.effects, false) := by
  rw [shows, dispatch_headers_ok hget hstate endStream hdecode]
  rfl

/-- Two blocks that decode show the same only when they decode to the same headers: the headers are in the
stream, or in the response the request was resolved with. -/
theorem shows_headers_ok_inj (hget : m.streams.get st.id = some st) (hstate : st.state ≠ .remoteReserved)
    (hclient : st.isPushPromise = false) {endStream : Bool} {payload payload' : Bytes} {headers headers' : HeaderMap}
    (hdecode : decodeHeaders (st.pendingHeaderBytes ++ payload) = .ok headers)
    (hdecode' : decodeHeaders (st.pendingHeaderBytes ++ payload') = .ok headers')
    (hshows : m.shows (headersFrame st.id true endStream payload) st.id =
      m.shows (headersFrame st.id true endStream payload') st.id) : headers = headers' := by
  rw [shows_headers_ok hget hstate endStream hdecode, shows_headers_ok hget hstate endStream hdecode'] at hshows
  obtain ⟨hstream, heffects, -⟩ := by simpa only [Prod.mk.injEq] using hshows
  by_cases hsettles : (endStream || st.endStreamSeen) = true → st.resolve = none
  · have hwaits : ∀ headers : HeaderMap,
        ((m.setStream (afterHeaders st endStream headers)).maybeResolveResponse (afterHeaders st endStream headers)).streams.get
          st.id = some (afterHeaders st endStream headers) := by
      intro headers
      rw [maybeResolveResponse_of_waiting _ fun _ hend => by
        rw [afterHeaders_endStreamSeen] at hend
        rw [afterHeaders_resolve, hsettles hend], setStream_streams]
      have hself := Table.get_set_self m.streams (afterHeaders st endStream headers)
      rwa [afterHeaders_id] at hself
    rw [hwaits, hwaits] at hstream
    have hsame := congrArg ManagedStream.responseHeaders (Option.some.inj hstream)
    rwa [afterHeaders_responseHeaders, afterHeaders_responseHeaders] at hsame
  · obtain ⟨hend, hresolve⟩ := Classical.not_imp.mp hsettles
    obtain ⟨callback, hcallback⟩ := Option.ne_none_iff_exists'.mp hresolve
    have hclient' : ∀ headers, (afterHeaders st endStream headers).isPushPromise = false := by
      intro headers
      rw [afterHeaders]
      split
      · rw [transitionOnEndStream_isPushPromise]
        exact hclient
      · exact hclient
    have hsettled : ∀ headers : HeaderMap,
        ((m.setStream (afterHeaders st endStream headers)).maybeResolveResponse (afterHeaders st endStream headers)).effects =
          m.effects ++ [.emitEvent (.streamClosed (afterHeaders st endStream headers).id),
            .resolve callback (afterHeaders st endStream headers).response] := fun headers =>
      maybeResolveResponse_client_effects _ (hclient' headers) (afterHeaders_headersComplete st endStream headers)
        (by rw [afterHeaders_endStreamSeen, hend]) (by rw [afterHeaders_resolve, hcallback])
    rw [hsettled, hsettled] at heffects
    have hresponse : (afterHeaders st endStream headers).response = (afterHeaders st endStream headers').response := by
      simpa using heffects
    have hsame := congrArg Http2Response.headers hresponse
    simpa only [ManagedStream.response, afterHeaders_responseHeaders] using hsame

/-- Two HEADERS frames for a client stream show the same exactly when the payloads that now make up its
block are read alike. -/
theorem shows_headers_iff (hget : m.streams.get st.id = some st) (hstate : st.state ≠ .remoteReserved)
    (hclient : st.isPushPromise = false) (endStream : Bool) (payload payload' : Bytes) :
    m.shows (headersFrame st.id true endStream payload) st.id = m.shows (headersFrame st.id true endStream payload') st.id ↔
      (decodeHeaders (st.pendingHeaderBytes ++ payload)).toOption =
        (decodeHeaders (st.pendingHeaderBytes ++ payload')).toOption := by
  cases hdecode : decodeHeaders (st.pendingHeaderBytes ++ payload) with
  | error e =>
      cases hdecode' : decodeHeaders (st.pendingHeaderBytes ++ payload') with
      | error e' => simp [shows_headers_error hget endStream hdecode, shows_headers_error hget endStream hdecode', Except.toOption]
      | ok headers' =>
          simp [shows_headers_error hget endStream hdecode, shows_headers_ok hget hstate endStream hdecode', Except.toOption]
  | ok headers =>
      cases hdecode' : decodeHeaders (st.pendingHeaderBytes ++ payload') with
      | error e' =>
          simp [shows_headers_ok hget hstate endStream hdecode, shows_headers_error hget endStream hdecode', Except.toOption]
      | ok headers' =>
          constructor
          · intro hshows
            rw [shows_headers_ok_inj hget hstate hclient hdecode hdecode' hshows]
          · intro hsame
            have heq : headers = headers' := Option.some.inj hsame
            rw [shows_headers_ok hget hstate endStream hdecode, shows_headers_ok hget hstate endStream hdecode', heq]

end Manager

theorem parseFrame_headers {flags : Nat} {streamId : StreamId} {payload : Bytes} (hflags : flags < 2 ^ 8)
    (hstream : streamId < 2 ^ 31) (hlength : payload.length < 2 ^ 24) :
    parseFrame (frameOctets 0x1 flags streamId payload) =
      .ok (.headers ⟨flags, streamId, decide (flags &&& 0x4 ≠ 0), decide (flags &&& 0x1 ≠ 0), decide (flags &&& 0x8 ≠ 0), payload⟩) := by
  have hparse := @parseFrame_frameOctets 0x1 flags streamId payload (by decide) hflags hstream hlength []
  rwa [List.append_nil] at hparse

namespace HeaderSections

variable (s : HeaderSections)

theorem around_ne (block : Bytes) : s.around block ≠ block := by
  intro hsame
  have hlength := congrArg List.length hsame
  simp only [around, List.length_cons, List.length_append] at hlength
  omega

theorem dispatch_octets (m : Manager) {streamId : StreamId} (hstream : streamId < 2 ^ 31) (endHeaders endStream : Bool)
    {block : Bytes} (hlength : (s.around block).length < 2 ^ 24) :
    ∃ frame, parseFrame (s.octets streamId endHeaders endStream block) = .ok frame ∧
      m.dispatch frame = m.dispatch (headersFrame streamId endHeaders endStream (s.around block)) := by
  have hflags : s.flags endHeaders endStream < 2 ^ 8 := by
    rw [flags]
    cases s.priority.isSome <;> cases endHeaders <;> cases endStream <;> decide
  refine ⟨_, parseFrame_headers hflags hstream hlength, ?_⟩
  rw [Manager.dispatch_headers]
  dsimp only
  congr 2
  · rw [flags]
    cases s.priority.isSome <;> cases endHeaders <;> cases endStream <;> decide
  · rw [flags]
    cases s.priority.isSome <;> cases endHeaders <;> cases endStream <;> decide

end HeaderSections

theorem dispatch_plainHeadersOctets (m : Manager) {streamId : StreamId} (hstream : streamId < 2 ^ 31)
    (endHeaders endStream : Bool) {block : Bytes} (hlength : block.length < 2 ^ 24) :
    ∃ frame, parseFrame (plainHeadersOctets streamId endHeaders endStream block) = .ok frame ∧
      m.dispatch frame = m.dispatch (headersFrame streamId endHeaders endStream block) := by
  have hflags : (if endHeaders then 0x4 else 0) ||| (if endStream then 0x1 else 0) < 2 ^ 8 := by
    cases endHeaders <;> cases endStream <;> decide
  refine ⟨_, parseFrame_headers hflags hstream hlength, ?_⟩
  rw [Manager.dispatch_headers]
  dsimp only
  congr 2
  · cases endHeaders <;> cases endStream <;> decide
  · cases endHeaders <;> cases endStream <;> decide

/-- A padded HEADERS frame for a client stream shows what the plain frame shows exactly when it ends the
header block and the HPACK decoder reads the sections as nothing: with them and without them it reads the
same headers, or fails. A block that is continued is never the same. -/
theorem header_sections_transparent_iff (ops : List ManagerOp) (st : ManagedStream)
    (hget : (Manager.run ops).streams.get st.id = some st) (hclient : st.isPushPromise = false) (hstream : st.id < 2 ^ 31)
    (s : HeaderSections) (endHeaders endStream : Bool) (block : Bytes) (hlength : (s.around block).length < 2 ^ 24) :
    (∃ padded plain, parseFrame (s.octets st.id endHeaders endStream block) = .ok padded ∧
      parseFrame (plainHeadersOctets st.id endHeaders endStream block) = .ok plain ∧
      (Manager.run ops).shows padded st.id = (Manager.run ops).shows plain st.id) ↔
    endHeaders = true ∧
      (decodeHeaders (st.pendingHeaderBytes ++ s.around block)).toOption =
        (decodeHeaders (st.pendingHeaderBytes ++ block)).toOption := by
  have hblock : block.length < 2 ^ 24 := by
    simp only [HeaderSections.around, List.length_cons, List.length_append] at hlength
    omega
  have hstate : st.state ≠ .remoteReserved := by
    rw [Manager.run_clientState ops st (Table.mem_of_get hget) hclient]
    split <;> simp
  obtain ⟨padded, hpadded, hdispatch⟩ := s.dispatch_octets (Manager.run ops) hstream endHeaders endStream hlength
  obtain ⟨plain, hplain, hdispatch'⟩ := dispatch_plainHeadersOctets (Manager.run ops) hstream endHeaders endStream hblock
  have hshows : (Manager.run ops).shows padded st.id =
      (Manager.run ops).shows (headersFrame st.id endHeaders endStream (s.around block)) st.id := by
    rw [Manager.shows, Manager.shows, hdispatch]
  have hshows' : (Manager.run ops).shows plain st.id =
      (Manager.run ops).shows (headersFrame st.id endHeaders endStream block) st.id := by
    rw [Manager.shows, Manager.shows, hdispatch']
  have hparsed : (∃ padded plain, parseFrame (s.octets st.id endHeaders endStream block) = .ok padded ∧
      parseFrame (plainHeadersOctets st.id endHeaders endStream block) = .ok plain ∧
      (Manager.run ops).shows padded st.id = (Manager.run ops).shows plain st.id) ↔
      (Manager.run ops).shows (headersFrame st.id endHeaders endStream (s.around block)) st.id =
        (Manager.run ops).shows (headersFrame st.id endHeaders endStream block) st.id := by
    rw [← hshows, ← hshows']
    constructor
    · rintro ⟨padded', plain', hpadded', hplain', hsame⟩
      obtain rfl := Except.ok.inj (hpadded.symm.trans hpadded')
      obtain rfl := Except.ok.inj (hplain.symm.trans hplain')
      exact hsame
    · intro hsame
      exact ⟨padded, plain, hpadded, hplain, hsame⟩
  rw [hparsed]
  cases endHeaders with
  | false =>
      rw [Manager.shows_headers_more hget, Manager.shows_headers_more hget]
      simp [ManagedStream.pushHeaderBytes, s.around_ne block]
  | true =>
      rw [Manager.shows_headers_iff hget hstate hclient]
      simp

/-- Two octets of padding and no priority. -/
def twoPadding : HeaderSections := ⟨none, [0, 0], by decide⟩

/-- 33 octets of padding: their length reads as a size update, and they themselves as empty fields. -/
def blankPadding : HeaderSections := ⟨none, List.replicate 33 0, by decide⟩

/-- Two octets of padding are seen, and 33 are not where the block has an empty field of its own. -/
theorem header_sections_transparent_iff_two :
    (¬ ∃ padded plain, parseFrame (twoPadding.octets 1 true true [0x88]) = .ok padded ∧
      parseFrame (plainHeadersOctets 1 true true [0x88]) = .ok plain ∧
      (Manager.run [.openStream, .expectResponse 1 0 0]).shows padded 1 =
        (Manager.run [.openStream, .expectResponse 1 0 0]).shows plain 1) ∧
    ∃ padded plain, parseFrame (blankPadding.octets 1 true true [0x88, 0, 0, 0]) = .ok padded ∧
      parseFrame (plainHeadersOctets 1 true true [0x88, 0, 0, 0]) = .ok plain ∧
      (Manager.run [.openStream, .expectResponse 1 0 0]).shows padded 1 =
        (Manager.run [.openStream, .expectResponse 1 0 0]).shows plain 1 := by
  constructor
  · intro htransparent
    have hread := (header_sections_transparent_iff [.openStream, .expectResponse 1 0 0] expectingStream (by decide +kernel) rfl (by decide)
      twoPadding true true [0x88] (by decide)).mp htransparent
    exact absurd hread.2 (by decide +kernel)
  · exact (header_sections_transparent_iff [.openStream, .expectResponse 1 0 0] expectingStream (by decide +kernel) rfl (by decide)
      blankPadding true true [0x88, 0, 0, 0] (by decide)).mpr ⟨rfl, by decide +kernel⟩

/-- With the padding the response that would have settled the request is a decoding error. -/
theorem padded_headers_rejected :
    ∃ padded plain, parseFrame (twoPadding.octets 1 true true [0x88]) = .ok padded ∧
      parseFrame (plainHeadersOctets 1 true true [0x88]) = .ok plain ∧
      ((Manager.run [.openStream, .expectResponse 1 0 0]).dispatch plain).2 = none ∧
      ((Manager.run [.openStream, .expectResponse 1 0 0]).dispatch padded).2 ≠ none ∧
      (Manager.run [.openStream, .expectResponse 1 0 0]).shows padded 1 ≠
        (Manager.run [.openStream, .expectResponse 1 0 0]).shows plain 1 :=
  ⟨.headers ⟨0xd, 1, true, true, true, [2, 0x88, 0, 0]⟩, .headers ⟨0x5, 1, true, true, false, [0x88]⟩, rfl, rfl,
    by decide +kernel, by decide +kernel, by decide +kernel⟩

end BrowsercoreHttp2
