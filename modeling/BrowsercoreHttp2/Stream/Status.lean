import BrowsercoreHttp2.Hpack.Peer
import BrowsercoreHttp2.Stream.HpackContext

/-!
# The status of a response

A response block from a conformant peer has one `:status` field. The request resolves with that status
where the decoder finds the field; where it finds none, `parseStatus` falls back to 200.
-/

namespace BrowsercoreHttp2

open ManagedStream

/-- A header block and then the end of the stream, on the block itself or on DATA frames after it. -/
def ResponseSequence.ofBlock (b : BlockFragments) (body : Option (List DataFragment × DataFragment)) : ResponseSequence where
  interim := []
  final := b
  tail := match body with
    | none => .endOnHeaders
    | some (data, last) => .endOnData data last

namespace Manager

variable {m : Manager} {st : ManagedStream} {callback : Callback}

theorem receive_splitBlock (hroute : m.continuationTarget st.id = st.id) (hget : m.streams.get st.id = some st) (endStream : Bool)
    (first : Bytes) (middle : List Bytes) (last : Bytes) :
    m.receive (splitBlock st.id endStream first middle last) =
      (m.setStream (st.pushHeaderBytes (first ++ middle.flatten))).dispatch (continuationFrame st.id true last) := by
  have hmiddle := @dispatchAll_continuations m (st.pushHeaderBytes first) st.id hroute.symm middle
  rw [splitBlock, receive_split m fun m' => dispatch_headers_returns m' st.id endStream first, dispatch_headers_more hget, hmiddle]
  simp only [pushHeaderBytes, List.append_assoc]

theorem Receiving.receiveBlock_error (h : Receiving m st callback) (b : BlockFragments) (endStream : Bool) {e : HpackError}
    (hdecode : decodeHeaders b.block = .error e) :
    ∃ m', m.receive (b.frames st.id endStream) = (m', some (.hpack e)) ∧ OnlySends m m' := by
  obtain ⟨first, continuations⟩ := b
  cases continuations with
  | none =>
      have hcollected : decodeHeaders (st.pendingHeaderBytes ++ first) = .error e := by
        rw [h.collected, List.nil_append]
        exact hdecode
      have hreceive := @receive_concat m [] (by simp) (headersFrame st.id true endStream first)
      exact ⟨_, hreceive.trans (dispatch_headers_error h.get endStream hcollected), .of_eq rfl⟩
  | some rest =>
      obtain ⟨middle, last⟩ := rest
      have hcollected : decodeHeaders ((st.pushHeaderBytes (first ++ middle.flatten)).pendingHeaderBytes ++ last) = .error e := by
        rw [h.collected_append]
        exact hdecode
      exact ⟨_, (receive_splitBlock h.route h.get endStream first middle last).trans
        (dispatch_continuation_error (get_collected h.route _) hcollected), .of_eq (continuationDone_effects _ _)⟩

theorem Receiving.receiveBlock_ok (h : Receiving m st callback) (b : BlockFragments) (endStream : Bool) {headers : HeaderMap}
    (hdecode : decodeHeaders b.block = .ok headers) :
    m.receive (b.frames st.id endStream) = (m.dispatchAll (b.frames st.id endStream), none) := by
  obtain ⟨first, continuations⟩ := b
  cases continuations with
  | none =>
      have hdecode : decodeHeaders first = .ok headers := hdecode
      have hdispatch := dispatch_headers_ok h.get h.not_reserved endStream (h.decode hdecode)
      have hreceive := @receive_concat m [] (by simp) (headersFrame st.id true endStream first)
      rw [dispatchAll_nil, List.nil_append] at hreceive
      simp only [BlockFragments.frames]
      rw [hreceive, dispatchAll_cons, dispatchAll_nil, hdispatch]
  | some rest =>
      obtain ⟨middle, last⟩ := rest
      have hcollected : decodeHeaders ((st.pushHeaderBytes (first ++ middle.flatten)).pendingHeaderBytes ++ last) = .ok headers := by
        rw [h.collected_append]
        exact hdecode
      have hdispatch := dispatch_continuation_ok (get_collected h.route (first ++ middle.flatten)) hcollected
      simp only [BlockFragments.frames]
      rw [receive_splitBlock h.route h.get, dispatchAll_splitBlock_collected h.route h.get, hdispatch]

theorem dispatch_data_returns (m : Manager) (d : DataFragment) (streamId : StreamId) (endStream : Bool) :
    (m.dispatch (d.frame streamId endStream)).2 = none := rfl

theorem Receiving.response_error (h : Receiving m st callback) (b : BlockFragments)
    (body : Option (List DataFragment × DataFragment)) {e : HpackError} (hdecode : decodeHeaders b.block = .error e) :
    OnlySends m (m.receive ((ResponseSequence.ofBlock b body).frames st.id)).1 := by
  cases body with
  | none =>
      obtain ⟨m', hreceive, hsends⟩ := h.receiveBlock_error b true hdecode
      simp only [ResponseSequence.frames, ResponseSequence.ofBlock, List.flatMap_nil, List.nil_append]
      rw [hreceive]
      exact hsends
  | some rest =>
      obtain ⟨m', hreceive, hsends⟩ := h.receiveBlock_error b false hdecode
      simp only [ResponseSequence.frames, ResponseSequence.ofBlock, List.flatMap_nil, List.nil_append]
      rw [receive_append, hreceive]
      exact hsends

/-- A response whose block decodes resolves the request with its headers, if the end comes through. -/
theorem Receiving.response_ok (h : Receiving m st callback) (b : BlockFragments) (body : Option (List DataFragment × DataFragment))
    {headers : HeaderMap} (hdecode : decodeHeaders b.block = .ok headers) :
    Answered m (m.receive ((ResponseSequence.ofBlock b body).frames st.id)).1 callback
      (ResponseSequence.ofBlock b body).endsWhole headers := by
  have hall : m.receive ((ResponseSequence.ofBlock b body).frames st.id) =
      (m.dispatchAll ((ResponseSequence.ofBlock b body).frames st.id), none) := by
    cases body with
    | none =>
        simp only [ResponseSequence.frames, ResponseSequence.ofBlock, List.flatMap_nil, List.nil_append]
        exact h.receiveBlock_ok b true hdecode
    | some rest =>
        simp only [ResponseSequence.frames, ResponseSequence.ofBlock, List.flatMap_nil, List.nil_append]
        rw [receive_append, h.receiveBlock_ok b false hdecode, dispatchAll_append]
        refine receive_of_returns _ fun frame hframe m' => ?_
        rcases List.mem_append.mp hframe with hframe | hframe
        · obtain ⟨d, -, rfl⟩ := List.mem_map.mp hframe
          exact dispatch_data_returns m' d st.id false
        · rw [List.mem_singleton.mp hframe]
          exact dispatch_data_returns m' _ st.id true
  rw [hall]
  refine h.response (ResponseSequence.ofBlock b body) ⟨fun b hb => absurd hb List.not_mem_nil, hdecode, ?_⟩
  cases body <;> exact hdecode

end Manager

/-- `parseStatus` reads a decimal status back when it is a number that a double holds exactly. -/
theorem parseStatus_eq_iff {headers : HeaderMap} {s : Nat} (h : headers.value ":status" = some (toString s)) :
    parseStatus headers = s ↔ Js.toDouble s 1 = .finite s := by
  have hdefault : Js.toDouble 200 1 = .finite defaultStatus := by decide +kernel
  rw [parseStatus, h]
  simp only [Js.number_toString]
  cases hs : Js.toDouble s 1 with
  | finite value => simp
  | _ =>
      -- only an integer beyond the doubles has no finite value, and 200 is not one
      simp only [reduceCtorEq, iff_false]
      intro heq
      have hs200 : s = 200 := by
        simp only [defaultStatus] at heq
        exact_mod_cast heq.symm
      rw [hs200, hdefault] at hs
      exact absurd hs (by simp)

/-- In every run, for every client stream whose response is expected and not yet begun to end, and every
block by which a conformant peer with any table means a header list with one `:status` field: the request
resolves with that status exactly when the end comes through, the block does not use the static status
entries, its indices resolve in a new table, and a double holds the status. -/
theorem status_fidelity_iff (ops : List ManagerOp) (st : ManagedStream) (callback : Callback) (p : PeerTable)
    (reps : List WireRepresentation) (fields : List (String × String)) (s : Nat) (b : BlockFragments)
    (body : Option (List DataFragment × DataFragment))
    (hget : (Manager.run ops).streams.get st.id = some st) (hclient : st.isPushPromise = false)
    (hresolve : st.resolve = some callback) (hunended : st.endStreamSeen = false) (hcollected : st.pendingHeaderBytes = [])
    (hroute : (Manager.run ops).continuationTarget st.id = st.id) (hfields : p.fields reps = some fields)
    (hstatus : (fields.filter fun field => field.1 = ":status") = [(":status", toString s)])
    (hblock : b.block = blockOctets reps) :
    (∃ response ∈ responsesTo callback (((Manager.run ops).receive
        ((ResponseSequence.ofBlock b body).frames st.id)).1.effects.drop (Manager.run ops).effects.length),
      response.statusCode = s ∧ response.headers.value ":status" = some (toString s)) ↔
      (ResponseSequence.ofBlock b body).endsWhole = true ∧ (∀ rep ∈ reps, rep.usesStaticStatus = false) ∧
        Resolves .initial (reps.map WireRepresentation.read) ∧ Js.toDouble s 1 = .finite s := by
  have hreceiving := Manager.Receiving.of_run ops hget hclient hresolve hunended hcollected hroute
  refine Iff.trans ?_ (and_congr_right fun _ => and_assoc)
  rw [← decodeHeaders_status_iff hfields hstatus, ← hblock]
  cases hdecode : decodeHeaders b.block with
  | error e =>
      rw [(hreceiving.response_error b body hdecode).responses]
      simp
  | ok headers =>
      have hanswered := hreceiving.response_ok b body hdecode
      cases hwhole : (ResponseSequence.ofBlock b body).endsWhole with
      | false =>
          rw [hwhole] at hanswered
          rw [Manager.OnlySends.responses hanswered]
          simp
      | true =>
          rw [hwhole] at hanswered
          obtain ⟨octets, hresolved⟩ := hanswered
          rw [hresolved.responses]
          simp only [List.mem_singleton, exists_eq_left, Except.ok.injEq, true_and]
          constructor
          · rintro ⟨hs, hvalue⟩
            exact ⟨⟨headers, rfl, hvalue⟩, (parseStatus_eq_iff hvalue).mp hs⟩
          · rintro ⟨⟨headers', rfl, hvalue⟩, hs⟩
            exact ⟨(parseStatus_eq_iff hvalue).mpr hs, hvalue⟩

/-- The 404 entry of the static table. -/
def notFoundIndexed : List WireRepresentation := [.indexed ⟨13, by decide⟩]

/-- The same field as a literal with a new name. -/
def notFoundLiteral : List WireRepresentation :=
  [.literal (.new (.raw [0x3a, 0x73, 0x74, 0x61, 0x74, 0x75, 0x73] (by decide))) (.raw [0x34, 0x30, 0x34] (by decide)) .noIndexing]

/-- A stream whose response is expected. -/
def oneRequest : List ManagerOp := [.openStream, .expectResponse 1 0 0]

theorem status_fidelity_iff_literal :
    (∃ response ∈ responsesTo 0 (((Manager.run oneRequest).receive
        ((ResponseSequence.ofBlock ⟨blockOctets notFoundLiteral, none⟩ none).frames 1)).1.effects.drop
          (Manager.run oneRequest).effects.length),
      response.statusCode = (404 : Nat) ∧ response.headers.value ":status" = some (toString 404)) ↔
      (ResponseSequence.ofBlock ⟨blockOctets notFoundLiteral, none⟩ none).endsWhole = true ∧
        (∀ rep ∈ notFoundLiteral, rep.usesStaticStatus = false) ∧
          Resolves .initial (notFoundLiteral.map WireRepresentation.read) ∧ Js.toDouble (404 : Nat) 1 = .finite (404 : Nat) :=
  status_fidelity_iff oneRequest expectingStream 0 ⟨[], 4096⟩ notFoundLiteral [(":status", "404")] 404 _ _ (by decide +kernel) rfl
    rfl rfl rfl (by decide +kernel) (by decide +kernel) (by decide) rfl

/-- What the request resolves with when the 404 is sent as an indexed field. -/
def notFoundResponses : List Http2Response :=
  responsesTo 0 (((Manager.run oneRequest).receive
    ((ResponseSequence.ofBlock ⟨blockOctets notFoundIndexed, none⟩ none).frames 1)).1.effects.drop
      (Manager.run oneRequest).effects.length)

/-- The indexed 404 is reported as a 200 whose headers have no `:status`. -/
theorem indexed_status_lost :
    (⟨[], 4096⟩ : PeerTable).fields notFoundIndexed = some [(":status", toString 404)] ∧
      (notFoundResponses.map fun response => (response.statusCode, response.headers.value ":status")) = [(200, none)] ∧
      ¬ ∃ response ∈ notFoundResponses,
        response.statusCode = (404 : Nat) ∧ response.headers.value ":status" = some (toString 404) := by
  refine ⟨?_, ?_, ?_⟩ <;> decide +kernel

end BrowsercoreHttp2
