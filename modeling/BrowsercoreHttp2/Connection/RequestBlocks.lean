import BrowsercoreHttp2.Connection.RequestFrames
import BrowsercoreHttp2.Hpack.BlockRoundTrip
import BrowsercoreHttp2.Hpack.ReferenceTable

/-!
# Header blocks of requests

Every request is encoded by an encoder of its own, while the peer decodes all of them with one table. No
block names an entry of that table, so each means the same to the peer whatever came before it.
-/

namespace BrowsercoreHttp2

open Http2Connection (buildRequestHeaders)

/-! ### A peer that decodes -/

/-- What the static table of RFC 7541 has for a name of the source's. -/
def peerName (name : String) : String := if name = "status" then ":status" else name

namespace PeerTable

/-- The table a header list leaves and its fields, if every index of it names an entry. -/
def takes (p : PeerTable) : List WireRepresentation → Option (PeerTable × List (String × String))
  | [] => some (p, [])
  | rep :: reps =>
      (p.apply rep).bind fun applied => (applied.1.takes reps).map fun taken => (taken.1, applied.2.toList ++ taken.2)

/-- The octets are a header block with these fields, and no size update in it is past what the peer allows. -/
def Decodes (allowed : WireSize) (p : PeerTable) (octets : Bytes) (p' : PeerTable) (fields : List (String × String)) : Prop :=
  ∃ reps, octets = blockOctets reps ∧ (∀ size, .sizeUpdate size ∈ reps → size.val ≤ allowed.val) ∧ p.takes reps = some (p', fields)

/-- The fields of blocks that arrive one after the other. -/
inductive DecodesAll (allowed : WireSize) : PeerTable → List Bytes → List (List (String × String)) → Prop where
  | nil (p : PeerTable) : DecodesAll allowed p [] []
  | cons {p p' : PeerTable} {octets : Bytes} {fields : List (String × String)} {blocks : List Bytes}
      {rest : List (List (String × String))} (hblock : p.Decodes allowed octets p' fields) (hrest : DecodesAll allowed p' blocks rest) :
      DecodesAll allowed p (octets :: blocks) (fields :: rest)

/-! Octets are decoded in one way. -/

theorem apply_congr (p : PeerTable) {rep rep' : WireRepresentation} (h : rep.read = rep'.read) : p.apply rep = p.apply rep' := by
  have hindex : ∀ index index' : WireIndex, JsNat.finite index.val = .finite index'.val → index = index' := fun _ _ heq =>
    Subtype.ext (JsNat.finite.inj heq)
  cases rep with
  | indexed index =>
      cases rep' with
      | indexed index' => rw [hindex index index' (Representation.indexed.inj h)]
      | _ => exact absurd h (by simp [WireRepresentation.read])
  | literal name value indexing =>
      cases rep' with
      | literal name' value' indexing' =>
          obtain ⟨hname, hvalue, hindexing⟩ := Representation.literal.inj h
          have hnames : p.name name = p.name name' := by
            cases name with
            | indexed index =>
                cases name' with
                | indexed index' => rw [hindex index index' (LiteralName.indexed.inj hname)]
                | new _ => exact absurd hname (by simp [WireName.read])
            | new text =>
                cases name' with
                | indexed _ => exact absurd hname (by simp [WireName.read])
                | new text' => exact congrArg some (LiteralName.new.inj hname)
          rw [apply, apply, hnames, hvalue, hindexing]
      | _ => exact absurd h (by simp [WireRepresentation.read])
  | sizeUpdate size =>
      cases rep' with
      | sizeUpdate size' =>
          have hsize : size = size' := Subtype.ext (JsNat.finite.inj (Representation.sizeUpdate.inj h))
          rw [hsize]
      | _ => exact absurd h (by simp [WireRepresentation.read])

theorem takes_congr (p : PeerTable) {reps reps' : List WireRepresentation}
    (h : reps.map WireRepresentation.read = reps'.map WireRepresentation.read) : p.takes reps = p.takes reps' := by
  induction reps generalizing p reps' with
  | nil => rw [List.map_eq_nil_iff.mp h.symm]
  | cons rep reps ih =>
      obtain ⟨rep', rest, hreps', hrep, hrest⟩ := List.map_eq_cons_iff.mp h.symm
      rw [hreps', takes, takes, p.apply_congr hrep.symm]
      congr 1
      funext applied
      rw [ih applied.1 hrest.symm]

theorem Decodes.unique {allowed : WireSize} {p p₁ p₂ : PeerTable} {octets : Bytes} {fields₁ fields₂ : List (String × String)}
    (h₁ : p.Decodes allowed octets p₁ fields₁) (h₂ : p.Decodes allowed octets p₂ fields₂) : p₁ = p₂ ∧ fields₁ = fields₂ := by
  obtain ⟨reps₁, hoctets₁, -, htakes₁⟩ := h₁
  obtain ⟨reps₂, hoctets₂, -, htakes₂⟩ := h₂
  have hread : some (reps₁.map WireRepresentation.read) = some (reps₂.map WireRepresentation.read) := by
    rw [← readBlock_blockOctets, ← readBlock_blockOctets, ← hoctets₁, hoctets₂]
  rw [p.takes_congr (Option.some.inj hread), htakes₂] at htakes₁
  obtain ⟨hp, hfields⟩ := Prod.mk.inj (Option.some.inj htakes₁)
  exact ⟨hp.symm, hfields.symm⟩

theorem DecodesAll.unique {allowed : WireSize} {p : PeerTable} {blocks : List Bytes} {lists₁ lists₂ : List (List (String × String))}
    (h₁ : DecodesAll allowed p blocks lists₁) (h₂ : DecodesAll allowed p blocks lists₂) : lists₁ = lists₂ := by
  induction h₁ generalizing lists₂ with
  | nil p =>
      cases h₂ with
      | nil => rfl
  | cons hblock hrest ih =>
      cases h₂ with
      | cons hblock₂ hrest₂ =>
          obtain ⟨hp, hfields⟩ := hblock.unique hblock₂
          rw [← hp] at hrest₂
          rw [hfields, ih hrest₂]

end PeerTable

/-! ### Blocks that name no entry -/

/-- A representation that is one field to the peer, whatever its table. -/
def WireRepresentation.Means (rep : WireRepresentation) (name value : String) : Prop :=
  ∀ p : PeerTable, ∃ p', p.apply rep = some (p', some (peerName name, value))

theorem WireRepresentation.Spells.means {rep : WireRepresentation} {name value : String} (h : rep.Spells name value)
    (hstatus : name = "status" → rep.index.isSome) : rep.Means name value := by
  intro p
  -- under an empty table only the static entries can be meant
  obtain ⟨dynamic', field, happly, hname, hvalue⟩ := h (DynamicTable.create (.finite 0))
  have hstatic : ∀ index : WireIndex, ∀ r, resolveIndex (.finite index.val) (DynamicTable.create (.finite 0)) = some r →
      p.resolve index = some (peerName r.name, r.value) := by
    intro index r hr
    have hle : index.val ≤ staticTableLength := by
      by_contra hgt
      rw [resolveIndex, if_neg (Nat.not_le.mpr index.2.1), if_neg hgt] at hr
      simp [DynamicTable.create, DynamicTable.get] at hr
    obtain ⟨e, -, hresolve, hpeer, -⟩ := resolve_static index.2.1 hle (DynamicTable.create (.finite 0)) p
    rw [hresolve] at hr
    rw [hpeer, ← Option.some.inj hr, rfcEntry, peerName, ResolvedHeader.name, ResolvedHeader.value]
    split <;> rfl
  cases rep with
  | indexed index =>
      obtain ⟨r, hr, happlied⟩ := Option.map_eq_some_iff.mp happly
      have hfield := Option.some.inj (Prod.mk.inj happlied).2
      refine ⟨p, ?_⟩
      rw [PeerTable.apply, hstatic index r hr, ← hname, ← hvalue, ← hfield]
      rfl
  | literal name' value' indexing =>
      obtain ⟨n, hn, happlied⟩ := Option.map_eq_some_iff.mp happly
      have hfield := Option.some.inj (Prod.mk.inj happlied).2
      have hpeer : p.name name' = some (peerName n) := by
        cases name' with
        | indexed index =>
            obtain ⟨r, hr, hn⟩ := Option.map_eq_some_iff.mp hn
            rw [PeerTable.name, hstatic index r hr, ← hn]
            rfl
        | new text =>
            have hplain : n ≠ "status" := by
              intro heq
              rw [← hfield] at hname
              exact absurd (hstatus (hname.symm.trans heq)) (by simp [WireRepresentation.index])
            rw [PeerTable.name, peerName, if_neg hplain]
            exact hn
      rw [PeerTable.apply, hpeer, ← hname, ← hvalue, ← hfield]
      exact ⟨_, rfl⟩
  | sizeUpdate size => exact absurd happly (by simp [WireRepresentation.read, Representation.apply])

theorem PeerTable.takes_means {reps : List WireRepresentation} {headers : List HeaderField}
    (h : List.Forall₂ (fun rep field => rep.Means (normalizeName field.name) field.value) reps headers) (p : PeerTable) :
    ∃ p', p.takes reps = some (p', headers.map fun field => (peerName (normalizeName field.name), field.value)) := by
  induction h generalizing p with
  | nil => exact ⟨p, rfl⟩
  | @cons rep field reps headers hmeans _ ih =>
      obtain ⟨p₁, happly⟩ := hmeans p
      obtain ⟨p₂, htakes⟩ := ih p₁
      refine ⟨p₂, ?_⟩
      rw [takes, happly, Option.bind_some, htakes]
      rfl

theorem not_sizeUpdate_means {reps : List WireRepresentation} {headers : List HeaderField}
    (h : List.Forall₂ (fun rep field => rep.Means (normalizeName field.name) field.value) reps headers) (size : WireSize) :
    .sizeUpdate size ∉ reps := by
  induction h with
  | nil => exact List.not_mem_nil
  | @cons rep field reps headers hmeans _ ih =>
      intro hmem
      rcases List.mem_cons.mp hmem with heq | hrest
      · obtain ⟨p', happly⟩ := hmeans ⟨[], 0⟩
        rw [← heq] at happly
        exact absurd happly (by simp [PeerTable.apply])
      · exact ih hrest

namespace HpackEncoder

variable (encoder : HpackEncoder)

theorem index_of_wire {rep rep' : WireRepresentation} (h : rep.wire = rep'.wire) : rep.index = rep'.index := by
  have hblock : blockOctets [rep] = blockOctets [rep'] := by
    rw [blockOctets, blockOctets, List.flatMap_cons, List.flatMap_cons, h]
  have hread : some [rep.read] = some [rep'.read] := by
    rw [← List.map_singleton, ← readBlock_blockOctets, hblock, readBlock_blockOctets, List.map_singleton]
  have hindex : ∀ r : WireRepresentation, r.read.index = r.index.map JsNat.finite := by
    intro r
    cases r with
    | literal name value indexing => cases name <;> rfl
    | _ => rfl
  have hsame : rep.index.map JsNat.finite = rep'.index.map JsNat.finite := by
    rw [← hindex, ← hindex, (List.cons.inj (Option.some.inj hread)).1]
  exact Option.map_injective (fun _ _ => JsNat.finite.inj) hsame

/-- A name of the static table is never spelled out. -/
theorem emitHeader_indexed {field : HeaderField} (h : field.Encodable encoder.useHuffman) {index : Nat}
    (hfind : findStaticNameIndex (normalizeName field.name) = some index) {rep : WireRepresentation}
    (hrep : encoder.emitHeader (planHeader field) = .ok rep.wire) : rep.index.isSome := by
  obtain ⟨l, hl, -⟩ := encoder.encodeString_wire h.shortValue h.value
  have hliteral : ∀ indexing : LiteralIndexing,
      encoder.emitLiteral indexing.prefixBits indexing.flag ((findStaticNameIndex (normalizeName field.name)).getD 0)
          (if (findStaticNameIndex (normalizeName field.name)).isNone then some (normalizeName field.name) else none) field.value =
        .ok (WireRepresentation.literal (.indexed ⟨index, (findStatic_resolves hfind).1⟩) l indexing).wire := by
    intro indexing
    rw [hfind, emitLiteral, Option.getD_some, encodeInteger_natCast, hl]
    show Except.ok (_ ++ [] ++ _) = _
    rw [List.append_assoc]
    rfl
  have hnamed : ∀ indexing : LiteralIndexing,
      encoder.emitLiteral indexing.prefixBits indexing.flag ((findStaticNameIndex (normalizeName field.name)).getD 0)
          (if (findStaticNameIndex (normalizeName field.name)).isNone then some (normalizeName field.name) else none) field.value =
        .ok rep.wire → rep.index.isSome := by
    intro indexing hok
    rw [hliteral] at hok
    rw [← index_of_wire (Except.ok.inj hok)]
    rfl
  rw [planHeader] at hrep
  split at hrep
  · exact hnamed .neverIndexed hrep
  · cases hexact : findStaticExactIndex (normalizeName field.name) field.value with
    | some exact' =>
        rw [hexact] at hrep
        have hwire : (WireRepresentation.indexed ⟨exact', (findStatic_resolves hexact).1⟩).wire = rep.wire :=
          Except.ok.inj ((congrArg (Except.map (setFlag 0x80)) (encodeInteger_natCast exact' 7)).symm.trans hrep)
        rw [← index_of_wire hwire]
        rfl
    | none =>
        rw [hexact] at hrep
        dsimp only at hrep
        split at hrep
        · exact hnamed .incremental hrep
        · exact hnamed .noIndexing hrep

theorem emitHeaders_means {headers : List HeaderField} (h : ∀ field ∈ headers, field.Encodable encoder.useHuffman) :
    ∃ reps : List WireRepresentation, encoder.emitHeaders headers = .ok (blockOctets reps) ∧
      List.Forall₂ (fun rep field => rep.Means (normalizeName field.name) field.value) reps headers := by
  induction headers with
  | nil => exact ⟨[], rfl, .nil⟩
  | cons field headers ih =>
      obtain ⟨hfield, hheaders⟩ := List.forall_mem_cons.mp h
      obtain ⟨rep, hrep, hspells, -⟩ := encoder.emitHeader_wire hfield
      obtain ⟨reps, hreps, hall⟩ := ih hheaders
      refine ⟨rep :: reps, ?_, .cons (hspells.means fun hname => ?_) hall⟩
      · rw [emitHeaders, hrep, hreps]
        rfl
      · have hfind : findStaticNameIndex (normalizeName field.name) = some 8 := by rw [hname]; decide
        exact encoder.emitHeader_indexed hfield hfind hrep

/-- The block of an encoder means its fields to a peer that allows the encoder's size update, whatever its table. -/
theorem encode_decoded {headers : List HeaderField} (h : ∀ field ∈ headers, field.Encodable encoder.useHuffman) {allowed : WireSize}
    (hsize : ∀ size ∈ encoder.nextSizeUpdate, size ≤ (allowed.val : Int)) {octets : Bytes}
    (hok : (encoder.encode headers).2 = .ok octets) (p : PeerTable) :
    ∃ p', p.Decodes allowed octets p' (headers.map fun field => (peerName (normalizeName field.name), field.value)) := by
  obtain ⟨reps, hreps, hmeans⟩ := encoder.emitHeaders_means h
  rw [encode] at hok
  cases hnext : encoder.nextSizeUpdate with
  | none =>
      rw [hnext] at hok
      obtain ⟨p', htakes⟩ := PeerTable.takes_means hmeans p
      refine ⟨p', reps, (Except.ok.inj (hreps.symm.trans hok)).symm, fun size hmem => ?_, htakes⟩
      exact absurd hmem (not_sizeUpdate_means hmeans size)
  | some newLimit =>
      rw [hnext] at hok
      dsimp only at hok
      by_cases hnegative : newLimit < 0
      · have hfails : encodeSizeUpdate newLimit = .error (.integerEncode newLimit) := by
          rw [encodeSizeUpdate, encodeInteger, if_pos hnegative]
          rfl
        rw [hfails] at hok
        exact absurd hok (by simp)
      · obtain ⟨n, hn⟩ := Int.eq_ofNat_of_zero_le (Int.not_lt.mp hnegative)
        have hfits : n ≤ allowed.val := by
          have := hsize newLimit hnext
          omega
        have hupdate : encodeSizeUpdate newLimit = .ok (WireRepresentation.sizeUpdate ⟨n, hfits.trans_lt allowed.2⟩).wire := by
          rw [hn]
          exact congrArg (Except.map (setFlag 0x20)) (encodeInteger_natCast n 5)
        rw [hupdate, hreps] at hok
        obtain ⟨p', htakes⟩ := PeerTable.takes_means hmeans (p.resize n)
        refine ⟨p', .sizeUpdate ⟨n, hfits.trans_lt allowed.2⟩ :: reps, (Except.ok.inj hok).symm, fun size hmem => ?_, ?_⟩
        · rcases List.mem_cons.mp hmem with heq | hrest
          · rw [WireRepresentation.sizeUpdate.inj heq]
            exact hfits
          · exact absurd hrest (not_sizeUpdate_means hmeans size)
        · show Option.map _ ((p.resize n).takes reps) = _
          rw [htakes]
          rfl

end HpackEncoder

/-! ### The requests of a connection -/

/-- The fields of a request as its encoder is given them. -/
def requestFields (options : Http2Options) (req : Http2Request) : List HeaderField :=
  (buildRequestHeaders options req).entries.map fun (name, value) =>
    ({ name, value, indexing := options.hpackIndexing.getD false } : HeaderField)

/-- The fields as the peer has them. -/
def heardFields (options : Http2Options) (req : Http2Request) : List (String × String) :=
  (buildRequestHeaders options req).entries.map fun field => (peerName (normalizeName field.1), field.2)

/-- The header block of a HEADERS frame. -/
def Frame.headerBlock : Frame → Option Bytes
  | .headers frame => some frame.payload
  | _ => none

namespace Http2Connection

variable {c : Http2Connection}

/-- The request whose HEADERS a step sends. -/
def requestSent (c : Http2Connection) : ConnectionStep → Option Http2Request
  | .resume call =>
      if call ∈ c.granted then
        if c.closing || c.closed then none else (c.requestBlock call.req).toOption.map fun _ => call.req
      else none
  | _ => none

/-- The requests whose HEADERS have gone out, in order. -/
def requestsSent (c : Http2Connection) : List ConnectionStep → List Http2Request
  | [] => []
  | a :: s => (c.requestSent a).toList ++ (c.step a).requestsSent s

theorem requestsSent_append (c : Http2Connection) (s s' : List ConnectionStep) :
    c.requestsSent (s ++ s') = c.requestsSent s ++ (c.steps s).requestsSent s' := by
  induction s generalizing c with
  | nil => rfl
  | cons a s ih =>
      rw [List.cons_append, requestsSent, requestsSent, ih, List.append_assoc]
      rfl

/-- The blocks are those of the requests in their order. -/
abbrev BlocksOf (options : Http2Options) : List Bytes → List Http2Request → Prop :=
  List.Forall₂ fun octets req => (encodeHeaders (buildRequestHeaders options req)
    { indexing := options.hpackIndexing, useHuffman := options.hpackHuffman, maxTableSize := options.hpackMaxTableSize }) = .ok octets

theorem sends_blocks (c : Http2Connection) (s : ConnectionStep) :
    BlocksOf c.options ((c.sends s).filterMap Frame.headerBlock) (c.requestSent s).toList := by
  cases s with
  | resume call =>
      simp only [sends, executorSends, requestSent]
      split
      · split
        · exact .nil
        · cases hblock : c.requestBlock call.req with
          | error e => exact .nil
          | ok payload => exact .cons hblock .nil
      · exact .nil
  | close =>
      simp only [sends]
      split <;> exact .nil
  | ping promise data =>
      simp only [sends]
      split <;> exact .nil
  | _ => exact .nil

/-! No step changes the options. -/

theorem manage_options (c : Http2Connection) (op : ManagerOp) : (c.manage op).options = c.options := (c.managed_hears _).options

theorem handleFatal_options (c : Http2Connection) (err : JsError) : (c.handleFatal err).options = c.options := by
  rw [handleFatal]
  split
  · rfl
  · dsimp only
    split <;> exact manage_options _ _

theorem executeRequest_options (c : Http2Connection) (streamId : StreamId) (call : RequestCall) :
    (c.executeRequest streamId call).options = c.options := by
  refine executeRequest_induction (motive := fun c' => c'.options = c.options) c streamId call ?_ ?_ ?_ ?_
  · exact fun _ => (Hears.releaseSlot _).options
  · exact fun _ => c.manage_options _
  · exact fun c' effect _ hbefore => hbefore
  · exact fun c' data hbefore => (c'.manage_options _).trans hbefore

theorem step_options (c : Http2Connection) (s : ConnectionStep) : (c.step s).options = c.options := by
  have hacquired : ∀ (c : Http2Connection) (call : RequestCall), (c.acquireSlot call).options = c.options := by
    intro c call
    rw [acquireSlot]
    split <;> rfl
  cases s with
  | request call =>
      simp only [step, request]
      split
      · rfl
      · exact hacquired c call
  | wake call =>
      simp only [step, wake]
      split
      · exact hacquired _ call
      · rfl
  | resume call =>
      simp only [step, resume]
      split
      · rw [executeRequest_options, openRequestStream_eq]
      · rfl
  | close =>
      simp only [step, close]
      split
      · rfl
      · exact manage_options _ _
  | ping promise data =>
      simp only [step, ping]
      split <;> rfl
  | settingsAckTimeout wait =>
      simp only [step, settingsAckTimeout]
      split <;> rfl
  | receiveFrame frame =>
      rcases c.receiveFrame_cases frame with ⟨-, hsame⟩ | ⟨hreading, ⟨reading, hread⟩ | ⟨e, -, hfatal⟩⟩
      · exact congrArg options hsame
      · rw [step, hread]
        exact c.manage_options _
      · rw [step, hfatal, handleFatal_options]
        exact c.manage_options _
  | readError err =>
      simp only [step, readError]
      split
      · exact handleFatal_options _ err
      · rfl
  | _ => rfl

theorem run_options (options : Http2Options) (s : List ConnectionStep) : (run options s).options = options := by
  induction s using List.reverseRecOn with
  | nil => rfl
  | append_singleton s a ih => rw [run_concat, step_options, ih]

theorem run_blocks (options : Http2Options) (s : List ConnectionStep) :
    BlocksOf options ((run options s).outbound.filterMap Frame.headerBlock) (Http2Connection.requestsSent { options } s) := by
  induction s using List.reverseRecOn with
  | nil => exact .nil
  | append_singleton s a ih =>
      obtain ⟨chunks, -, hemits⟩ := (run options s).step_sends a
      have hnone : (chunks.map (fun chunk => dataFrame chunk.1 chunk.2) ++ (run options s).answersTo a).filterMap Frame.headerBlock = [] := by
        refine List.filterMap_eq_nil_iff.mpr fun frame hframe => ?_
        cases frame with
        | headers headers => exact absurd rfl (not_headers_of_sendable ((run options s).rest_sendable chunks a _ hframe) headers)
        | _ => rfl
      have hstep := (run options s).sends_blocks a
      rw [run_options] at hstep
      have hsent : requestsSent (run options s) [a] = ((run options s).requestSent a).toList := List.append_nil _
      rw [run_concat, hemits.outbound, List.filterMap_append, List.filterMap_append, hnone, List.append_nil, requestsSent_append]
      exact List.rel_append ih (hsent ▸ hstep)

theorem resumed_of_requestsSent {c : Http2Connection} {s : List ConnectionStep} {req : Http2Request} (h : req ∈ c.requestsSent s) :
    ∃ call, .resume call ∈ s ∧ call.req = req := by
  induction s generalizing c with
  | nil => exact absurd h List.not_mem_nil
  | cons a s ih =>
      rw [requestsSent, List.mem_append, Option.mem_toList] at h
      rcases h with hnow | hlater
      · cases a with
        | resume call =>
            rw [requestSent] at hnow
            split at hnow
            · split at hnow
              · exact absurd hnow (by simp)
              · obtain ⟨payload, -, hreq⟩ := Option.map_eq_some_iff.mp hnow
                exact ⟨call, List.mem_cons_self, hreq⟩
            · exact absurd hnow (by simp)
        | _ => exact absurd hnow (by simp [requestSent])
      · obtain ⟨call, hcall, hreq⟩ := ih hlater
        exact ⟨call, List.mem_cons_of_mem _ hcall, hreq⟩

end Http2Connection

open Http2Connection

/-- Blocks of requests that can be encoded mean their fields to the peer. -/
theorem decodesAll_blocks {options : Http2Options} {allowed : WireSize} (hsize : ∀ size ∈ options.hpackMaxTableSize,
      size = hpackDefaultTableSize ∨ size ≤ (allowed.val : Int)) {blocks : List Bytes} {reqs : List Http2Request}
    (h : BlocksOf options blocks reqs)
    (hplain : ∀ req ∈ reqs, ∀ field ∈ requestFields options req, field.Encodable (options.hpackHuffman.getD true)) (p : PeerTable) :
    PeerTable.DecodesAll allowed p blocks (reqs.map (heardFields options)) := by
  have hupdate : ∀ size ∈ (HpackEncoder.create options.hpackMaxTableSize options.hpackHuffman).nextSizeUpdate,
      size ≤ (allowed.val : Int) := by
    intro size hmem
    rw [HpackEncoder.create] at hmem
    dsimp only at hmem
    split at hmem
    · rename_i hother
      obtain rfl := Option.some.inj hmem
      cases hmax : options.hpackMaxTableSize with
      | none =>
          rw [hmax] at hother
          exact absurd rfl hother
      | some size =>
          rw [hmax, Option.getD_some] at hother
          exact (hsize size hmax).resolve_left hother
    · exact absurd hmem (by simp)
  induction h generalizing p with
  | nil => exact .nil p
  | @cons octets req blocks reqs hblock _ ih =>
      obtain ⟨hreq, hreqs⟩ := List.forall_mem_cons.mp hplain
      have hfields : (requestFields options req).map (fun field => (peerName (normalizeName field.name), field.value)) =
          heardFields options req := List.map_map
      obtain ⟨p', hdecodes⟩ : ∃ p', p.Decodes allowed octets p' (heardFields options req) := by
        rw [← hfields]
        exact HpackEncoder.encode_decoded _ hreq hupdate hblock p
      exact .cons hdecodes (ih hreqs p')

/-- A peer that decodes the header blocks of a connection one after the other, with one table in whatever state, reads the
fields of the requests whose HEADERS went out, in order, their names in lower case, and nothing else. Only `status`
it takes for `:status`. -/
theorem requests_decoded (options : Http2Options) (s : List ConnectionStep) (allowed : WireSize)
    (hsize : ∀ size ∈ options.hpackMaxTableSize, size = hpackDefaultTableSize ∨ size ≤ (allowed.val : Int))
    (hplain : ∀ call, .resume call ∈ s → ∀ field ∈ requestFields options call.req, field.Encodable (options.hpackHuffman.getD true))
    (p : PeerTable) (lists : List (List (String × String))) :
    PeerTable.DecodesAll allowed p ((run options s).outbound.filterMap Frame.headerBlock) lists ↔
      lists = (requestsSent { options } s).map (heardFields options) := by
  have hdecodes := decodesAll_blocks hsize (run_blocks options s) (fun req hreq => by
    obtain ⟨call, hcall, heq⟩ := resumed_of_requestsSent hreq
    exact heq ▸ hplain call hcall) p
  refine Iff.intro (fun h => h.unique hdecodes) fun h => ?_
  rw [h]
  exact hdecodes

/-- Two requests over a connection that has the peer index their headers in a small table. -/
def indexedRequests : List ConnectionStep :=
  [ .request ⟨⟨"GET", "https", "a", "/", Table.empty.set ("X-Id", "7"), none⟩, 0⟩,
    .resume ⟨⟨"GET", "https", "a", "/", Table.empty.set ("X-Id", "7"), none⟩, 0⟩,
    .request ⟨⟨"GET", "https", "a", "/", Table.empty.set ("status", "7"), none⟩, 1⟩,
    .resume ⟨⟨"GET", "https", "a", "/", Table.empty.set ("status", "7"), none⟩, 1⟩ ]

theorem requests_decoded_indexed :
    PeerTable.DecodesAll ⟨100, by decide⟩ ⟨[], 4096⟩
      ((run { hpackIndexing := some true, hpackMaxTableSize := some 64 } indexedRequests).outbound.filterMap Frame.headerBlock)
      [[(":method", "GET"), (":scheme", "https"), (":authority", "a"), (":path", "/"), ("x-id", "7")],
        [(":method", "GET"), (":scheme", "https"), (":authority", "a"), (":path", "/"), (":status", "7")]] := by
  have hshort : ∀ {n : Nat}, n < 100 → n < stringBound := by
    intro n hn
    rw [stringBound]
    omega
  refine (requests_decoded _ indexedRequests ⟨100, by decide⟩ (by decide) (fun call hcall => ?_) ⟨[], 4096⟩ _).mpr (by decide +kernel)
  have hfields : requestFields { hpackIndexing := some true, hpackMaxTableSize := some 64 } call.req =
        [⟨":method", "GET", true, false⟩, ⟨":scheme", "https", true, false⟩, ⟨":authority", "a", true, false⟩,
          ⟨":path", "/", true, false⟩, ⟨"X-Id", "7", true, false⟩] ∨
      requestFields { hpackIndexing := some true, hpackMaxTableSize := some 64 } call.req =
        [⟨":method", "GET", true, false⟩, ⟨":scheme", "https", true, false⟩, ⟨":authority", "a", true, false⟩,
          ⟨":path", "/", true, false⟩, ⟨"status", "7", true, false⟩] := by
    simp only [indexedRequests, List.mem_cons, reduceCtorEq, ConnectionStep.resume.injEq, List.not_mem_nil, false_or, or_false] at hcall
    rcases hcall with hcall | hcall
    · rw [hcall]
      exact .inl (by decide +kernel)
    · rw [hcall]
      exact .inr (by decide +kernel)
  rcases hfields with hfields | hfields
  all_goals
    rw [hfields]
    simp only [List.forall_mem_cons, List.not_mem_nil, false_imp_iff, implies_true, and_true]
    refine ⟨⟨?_, ?_, hshort ?_, hshort ?_⟩, ⟨?_, ?_, hshort ?_, hshort ?_⟩, ⟨?_, ?_, hshort ?_, hshort ?_⟩,
      ⟨?_, ?_, hshort ?_, hshort ?_⟩, ⟨?_, ?_, hshort ?_, hshort ?_⟩⟩ <;> decide

end BrowsercoreHttp2
