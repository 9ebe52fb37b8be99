import BrowsercoreHttp2.Hpack.BlockRoundTrip
import BrowsercoreHttp2.Hpack.DecoderTable

/-!
# The fields a peer indexes

A block enters into the peer's table the fields that ask for it, have no entry in the static table and are not
sensitive, in their order and with their names in lower case. A sensitive value leaves no trace there.
-/

namespace BrowsercoreHttp2

/-- Enter a field into a table if it is one to be indexed. -/
def DynamicTable.enter (t : DynamicTable) (field : HeaderField) : DynamicTable :=
  if field.enters then t.add (normalizeName field.name) field.value else t

/-- The same field, with another value only if it is sensitive. -/
structure HeaderField.SameButSecret (field field' : HeaderField) : Prop where
  same : field' = { field with value := field'.value }
  secret : field.sensitive = false → field'.value = field.value

theorem HeaderField.SameButSecret.enter {field field' : HeaderField} (h : field.SameButSecret field') (t : DynamicTable) :
    t.enter field' = t.enter field := by
  cases hsensitive : field.sensitive with
  | false =>
      have hsame : field' = field := by rw [h.same, h.secret hsensitive]
      rw [hsame]
  | true =>
      have hsensitive' : field'.sensitive = true := by rw [h.same, hsensitive]
      simp only [DynamicTable.enter, HeaderField.enters, hsensitive, hsensitive', Bool.not_true, Bool.and_false, Bool.false_and,
        Bool.false_eq_true, if_false]

theorem foldl_enter_congr {headers headers' : List HeaderField} (h : List.Forall₂ HeaderField.SameButSecret headers headers')
    (t : DynamicTable) : headers'.foldl DynamicTable.enter t = headers.foldl DynamicTable.enter t := by
  induction h generalizing t with
  | nil => rfl
  | cons hfield _ ih => rw [List.foldl_cons, List.foldl_cons, hfield.enter, ih]

/-! ### What a block does to a table -/

theorem applyUntil_enters {reps : List WireRepresentation} {headers : List HeaderField}
    (h : List.Forall₂ (fun rep field => rep.Enters field.enters (normalizeName field.name) field.value) reps headers)
    (dynamic : DynamicTable) : applyUntil dynamic (reps.map WireRepresentation.read) = headers.foldl DynamicTable.enter dynamic := by
  induction h generalizing dynamic with
  | nil => rfl
  | @cons rep field reps headers hrep _ ih =>
      obtain ⟨applied, happly, htable⟩ := Option.map_eq_some_iff.mp (hrep dynamic)
      rw [List.map_cons, applyUntil, happly, Option.elim_some, ih, htable, List.foldl_cons]
      rfl

theorem applyUntil_sizeUpdates (dynamic : DynamicTable) (sizes : List JsNat) (reps : List Representation) :
    applyUntil dynamic (sizes.map .sizeUpdate ++ reps) = applyUntil (sizes.foldl DynamicTable.setLimit dynamic) reps := by
  induction sizes generalizing dynamic with
  | nil => rfl
  | cons size sizes ih => exact ih (dynamic.setLimit size)

theorem HeaderField.Encodable.of_printable {field : HeaderField} (h : field.Encodable true) (useHuffman : Bool) :
    field.Encodable useHuffman := by
  cases useHuffman with
  | true => exact h
  | false => exact ⟨h.name, PrintableAscii.latin1 h.value, h.shortName, h.shortValue⟩

/-- The blocks of an encoder, in its present state, read as its size update and what enters the fields. -/
theorem HpackEncoder.encode_reads (encoder : HpackEncoder) :
    ∃ sizes : List JsNat, (encoder.nextSizeUpdate = none → sizes = []) ∧
      (∀ n < Js.exactBound, encoder.nextSizeUpdate = some (Int.ofNat n) → sizes = [.finite n]) ∧
      ∀ headers octets, (∀ field ∈ headers, field.Encodable encoder.useHuffman) → (encoder.encode headers).2 = .ok octets →
        ∃ reps : List WireRepresentation, readBlock octets = some (sizes.map .sizeUpdate ++ reps.map WireRepresentation.read) ∧
          List.Forall₂ (fun rep field => rep.Enters field.enters (normalizeName field.name) field.value) reps headers := by
  cases hnext : encoder.nextSizeUpdate with
  | none =>
      refine ⟨[], fun _ => rfl, fun n _ h => absurd h.symm (Option.some_ne_none _), fun headers octets h hencode => ?_⟩
      obtain ⟨reps, hreps, -, henters⟩ := encoder.emitHeaders_wire h
      rw [encode, hnext] at hencode
      obtain rfl := Except.ok.inj (hreps.symm.trans hencode)
      exact ⟨reps, readBlock_blockOctets reps, henters⟩
  | some newLimit =>
      cases newLimit with
      | negSucc n =>
          refine ⟨[], fun _ => rfl, fun n _ h => absurd (Option.some.inj h) (by simp), fun headers octets _ hencode => ?_⟩
          rw [encode, hnext] at hencode
          exact absurd hencode (by simp [encodeSizeUpdate, encodeInteger, Except.map])
      | ofNat n =>
          have hupdate : encodeSizeUpdate (Int.ofNat n) = .ok (setFlag 0x20 (integerOctets n 5)) :=
            congrArg (Except.map (setFlag 0x20)) (encodeInteger_natCast n 5)
          obtain ⟨size, hexact, hread⟩ := readFrom_sizeUpdate n
          refine ⟨[size], fun h => absurd h (Option.some_ne_none _), fun n' hn h => ?_, fun headers octets h hencode => ?_⟩
          · obtain rfl := Int.ofNat.inj (Option.some.inj h)
            rw [hexact hn]
          · obtain ⟨reps, hreps, -, henters⟩ := encoder.emitHeaders_wire h
            rw [encode, hnext] at hencode
            dsimp only at hencode
            rw [hupdate] at hencode
            dsimp only at hencode
            rw [hreps] at hencode
            obtain rfl := Except.ok.inj hencode
            exact ⟨reps, hread reps, henters⟩

/-- Any printable block and any tables: what the block does to the decoder's table is its size update, as it reads alone,
and then the fields that are to be indexed, in order; and the values of sensitive fields make no difference. -/
theorem indexed_fields_enter (encoder : HpackEncoder) (decoder : HpackDecoder) {headers : List HeaderField} {update octets : Bytes}
    (hheaders : ∀ field ∈ headers, field.Encodable true) (hupdate : (encoder.encode []).2 = .ok update)
    (hoctets : (encoder.encode headers).2 = .ok octets) :
    (decoder.decode octets).1.dynamic = headers.foldl DynamicTable.enter (decoder.decode update).1.dynamic ∧
      (encoder.nextSizeUpdate = none → (decoder.decode update).1.dynamic = decoder.dynamic) ∧
      (∀ n < 2 ^ 53, encoder.nextSizeUpdate = some (Int.ofNat n) →
        (decoder.decode update).1.dynamic = decoder.dynamic.setLimit (.finite n)) ∧
      ∀ headers' octets', List.Forall₂ HeaderField.SameButSecret headers headers' → (∀ field ∈ headers', field.Encodable true) →
        (encoder.encode headers').2 = .ok octets' → (decoder.decode octets').1.dynamic = (decoder.decode octets).1.dynamic := by
  obtain ⟨sizes, hnone, hsome, hreads⟩ := encoder.encode_reads
  have htable : ∀ headers octets, (∀ field ∈ headers, field.Encodable true) → (encoder.encode headers).2 = .ok octets →
      (decoder.decode octets).1.dynamic = headers.foldl DynamicTable.enter (sizes.foldl DynamicTable.setLimit decoder.dynamic) := by
    intro headers octets hheaders hoctets
    obtain ⟨reps, hread, henters⟩ := hreads headers octets (fun field hfield => (hheaders field hfield).of_printable _) hoctets
    rw [decoder.decode_dynamic, readable_of_readBlock hread, applyUntil_sizeUpdates, applyUntil_enters henters]
  have hresized := htable [] update (fun _ h => absurd h List.not_mem_nil) hupdate
  refine ⟨?_, fun h => ?_, fun n hn h => ?_, fun headers' octets' hsame hheaders' hoctets' => ?_⟩
  · rw [htable headers octets hheaders hoctets, hresized]
    rfl
  · rw [hresized, hnone h]
    rfl
  · rw [hresized, hsome n hn h]
    rfl
  · rw [htable headers octets hheaders hoctets, htable headers' octets' hheaders' hoctets', foldl_enter_congr hsame]

/-- A password is sent beside a token that is to be indexed, to a decoder that is resized first. -/
theorem indexed_fields_enter_password :
    let headers : List HeaderField := [⟨"X-Token", "t", true, false⟩, ⟨"password", "p", true, true⟩]
    let encoder : HpackEncoder := .create (some 100) (some false)
    ∃ update octets, (encoder.encode []).2 = .ok update ∧ (encoder.encode headers).2 = .ok octets ∧
      (HpackDecoder.initial.decode octets).1.dynamic =
        headers.foldl DynamicTable.enter (HpackDecoder.initial.decode update).1.dynamic := by
  intro headers encoder
  have hprintable : ∀ field ∈ headers, field.Encodable true := by
    intro field hfield
    rcases List.mem_cons.mp hfield with rfl | hfield
    · exact ⟨by decide, by decide, by decide, by decide⟩
    · obtain rfl := List.mem_singleton.mp hfield
      exact ⟨by decide, by decide, by decide, by decide⟩
  have hsize : ∀ size ∈ encoder.nextSizeUpdate, 0 ≤ size := by decide
  have hempty : ∀ field ∈ ([] : List HeaderField), field.Encodable encoder.useHuffman := fun _ h => absurd h List.not_mem_nil
  obtain ⟨-, update, hupdate, -⟩ := encoder.encode_decodes hsize hempty
  obtain ⟨-, octets, hoctets, -⟩ := encoder.encode_decodes hsize fun field hfield => (hprintable field hfield).of_printable _
  exact ⟨update, octets, hupdate, hoctets, (indexed_fields_enter encoder .initial hprintable hupdate hoctets).1⟩

end BrowsercoreHttp2
