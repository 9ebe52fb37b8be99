import BrowsercoreHttp2.Hpack.Peer

/-!
# The header block round trip

The encoder never refers to the dynamic table: its indices are static and its other names are spelled out.
So each representation it writes is the same field under every table, and the blocks of an encoder read
back whatever literals and size updates have left in the decoder's table before.
-/

namespace BrowsercoreHttp2

/-! ### Encodable strings -/

def PrintableAscii (s : String) : Prop := ∀ c ∈ s.toList, 0x20 ≤ c.toNat ∧ c.toNat ≤ 0x7e

def Latin1 (s : String) : Prop := ∀ c ∈ s.toList, c.toNat ≤ 0xff

instance (s : String) : Decidable (PrintableAscii s) := List.decidableBAll _ s.toList

instance (s : String) : Decidable (Latin1 s) := List.decidableBAll _ s.toList

/-- Far longer than any JavaScript string; the octets a shorter one is coded as fit an array. -/
def stringBound : Nat := 2 ^ 50

/-- What a field's strings are, by the encoder's coding. -/
structure HeaderField.Encodable (useHuffman : Bool) (field : HeaderField) : Prop where
  name : PrintableAscii field.name
  value : if useHuffman then PrintableAscii field.value else Latin1 field.value
  shortName : field.name.length < stringBound
  shortValue : field.value.length < stringBound

theorem PrintableAscii.latin1 {s : String} (h : PrintableAscii s) : Latin1 s := fun c hc => (h c hc).2.trans (by decide)

theorem toLowerCaseChar_printable {c : Char} (h : 0x20 ≤ c.toNat ∧ c.toNat ≤ 0x7e) :
    0x20 ≤ (toLowerCaseChar c).toNat ∧ (toLowerCaseChar c).toNat ≤ 0x7e := by
  rw [toLowerCaseChar]
  split
  · rename_i hupper
    rw [toNat_charOfNat (by omega)]
    omega
  · rw [if_neg (by omega), if_neg (by omega), if_neg (by omega), if_neg (by omega), if_neg (by omega)]
    exact h

theorem PrintableAscii.normalizeName {s : String} (h : PrintableAscii s) : PrintableAscii (normalizeName s) := by
  intro c hc
  rw [BrowsercoreHttp2.normalizeName, String.toList_ofList] at hc
  obtain ⟨c', hc', rfl⟩ := List.mem_map.mp hc
  exact toLowerCaseChar_printable (h c' hc')

@[simp] theorem normalizeName_length (s : String) : (normalizeName s).length = s.length := by
  rw [normalizeName, String.length_ofList, List.length_map, String.length_toList]

theorem encodeLatin1_of_latin1 {s : String} (h : Latin1 s) :
    encodeLatin1 s = .ok (s.toList.map fun c => c.toNat.toUInt8) := by
  have hchars : ∀ (cs : List Char) (offset : Nat), (∀ c ∈ cs, c.toNat ≤ 0xff) →
      encodeLatin1From offset cs = .ok (cs.map fun c => c.toNat.toUInt8) := by
    intro cs
    induction cs with
    | nil => exact fun _ _ => rfl
    | cons c cs ih =>
        intro offset hcs
        have hc := hcs c List.mem_cons_self
        rw [encodeLatin1From, if_neg (by omega), ih _ fun c' hc' => hcs c' (List.mem_cons_of_mem _ hc')]
        rfl
  exact hchars s.toList 0 h

/-- Short code words always fit behind less than an octet of pending bits. -/
theorem fitsBuffer_of_short {s : Bytes} (h : ∀ octet ∈ s, (octetRow octet).bits ≤ 24) {pending : List Bool}
    (hpending : pending.length < 8) : fitsBuffer pending s = true := by
  induction s generalizing pending with
  | nil => rfl
  | cons octet s ih =>
      have hbits := h octet List.mem_cons_self
      have hcarry : (carry pending octet).length < 8 := by
        rw [carry, List.length_drop, List.length_append, HuffmanRow.word_length]
        omega
      have hnone : pending.length + (octetRow octet).bits - 31 = 0 := by omega
      rw [fitsBuffer, hnone, List.take_zero, ih (fun o ho => h o (List.mem_cons_of_mem _ ho)) hcarry]
      rfl

theorem octetRow_bits_printable {octet : UInt8} (h : 0x20 ≤ octet.toNat ∧ octet.toNat ≤ 0x7e) : (octetRow octet).bits ≤ 24 := by
  have htable : ∀ row ∈ huffmanTable, 0x20 ≤ row.symbol ∧ row.symbol ≤ 0x7e → row.bits ≤ 24 := by decide +kernel
  exact htable _ (octetRow_mem octet) (by rwa [octetRow_symbol])

/-- The string literal an encoder writes for a string it is promised. -/
theorem HpackEncoder.encodeString_wire (encoder : HpackEncoder) {s : String} (hshort : s.length < stringBound)
    (h : if encoder.useHuffman then PrintableAscii s else Latin1 s) :
    ∃ l : StringLiteral, encoder.encodeString s = .ok l.wire ∧ l.text = s := by
  have hlatin1 : Latin1 s := by
    split at h
    · exact h.latin1
    · exact h
  have hencoded := encodeLatin1_of_latin1 hlatin1
  have htext := latin1_of_encodeLatin1 hencoded
  have hlen : (s.toList.map fun c => c.toNat.toUInt8).length < stringBound := by
    rwa [List.length_map, String.length_toList]
  cases huse : encoder.useHuffman with
  | false =>
      refine ⟨.raw _ (hlen.trans (by decide)), ?_, htext.symm⟩
      rw [encodeString, huse, if_neg (by decide), encodeStringLiteral, hencoded]
      show (encodeInteger _ 7 >>= fun lengthOctets => _) = _
      rw [encodeInteger_natCast]
      rfl
  | true =>
      rw [huse, if_pos rfl] at h
      obtain ⟨out, tail, hout, hbits, hbound, hspec⟩ :=
        huffmanEncodeFrom_spec .initial (by decide) (s.toList.map fun c => c.toNat.toUInt8)
      have hfits : fitsBuffer HuffmanWriter.initial.pending (s.toList.map fun c => c.toNat.toUInt8) = true := by
        refine fitsBuffer_of_short (fun octet hoctet => ?_) (by decide)
        obtain ⟨c, hc, rfl⟩ := List.mem_map.mp hoctet
        have hvalue : c.toNat.toUInt8.toNat = c.toNat := Nat.mod_eq_of_lt (Nat.lt_succ_of_le (hlatin1 c hc))
        exact octetRow_bits_printable (by rw [hvalue]; exact h c hc)
      rw [hfits] at hspec
      obtain ⟨padding, hpadding, rfl⟩ := hspec
      have hexact : out.length < Js.exactBound := by
        have hcount := congrArg List.length hbits
        have hinitial : octetBits HuffmanWriter.initial.out = [] ∧ HuffmanWriter.initial.bitsInBuffer = 0 := ⟨rfl, rfl⟩
        rw [List.length_append, octetBits_length, hinitial.1, List.length_nil] at hcount
        rw [hinitial.2] at hbound
        rw [stringBound] at hlen
        rw [Js.exactBound]
        omega
      refine ⟨⟨_, true, out, ⟨padding, hpadding, hbits⟩, hexact⟩, ?_, htext.symm⟩
      rw [encodeString, huse, if_pos rfl]
      exact encodeStringHuffman_of_octets hencoded hout

/-! ### Static indices -/

/-- An index found in the static table resolves to the entry it was found for, whatever the dynamic table. -/
theorem findStatic_resolves {p : StaticEntry → Bool} {index : Nat} (h : (staticTable.findIdx? p).map (· + 1) = some index) :
    (0 < index ∧ index < 2 ^ 32) ∧
      ∃ e, p e = true ∧ ∀ dynamic, resolveIndex (.finite index) dynamic = some (.static e.name e.value) := by
  obtain ⟨i, hi, rfl⟩ := Option.map_eq_some_iff.mp h
  obtain ⟨hlt, hp, -⟩ := List.findIdx?_eq_some_iff_getElem.mp hi
  have hlen : staticTable.length = 61 := staticTableLength_eq
  refine ⟨⟨by omega, by omega⟩, staticTable[i], hp, fun dynamic => ?_⟩
  rw [resolveIndex, if_neg (by omega), if_pos (by rw [staticTableLength]; omega), Nat.add_sub_cancel,
    List.getElem?_eq_getElem hlt]
  rfl

/-! ### Fields -/

/-- A representation that is one field under every table. -/
def WireRepresentation.Spells (rep : WireRepresentation) (name value : String) : Prop :=
  ∀ dynamic, ∃ dynamic' field, rep.read.apply dynamic = some (dynamic', some field) ∧ field.name = name ∧ field.value = value

/-- The representation puts a field into every table, or leaves every table as it is. -/
def WireRepresentation.Enters (rep : WireRepresentation) (enters : Bool) (name value : String) : Prop :=
  ∀ dynamic, (rep.read.apply dynamic).map Prod.fst = some (if enters then dynamic.add name value else dynamic)

/-- The fields an encoder has the peer index. -/
def HeaderField.enters (field : HeaderField) : Bool :=
  field.indexing && !field.sensitive && (findStaticExactIndex (normalizeName field.name) field.value).isNone

namespace HpackEncoder

variable (encoder : HpackEncoder)

/-- A literal reads back with the name it was given, as a static index or spelled out. -/
theorem emitLiteral_wire (indexing : LiteralIndexing) {name value : String} (hname : PrintableAscii name)
    (hshort : name.length < stringBound) (hvalue : if encoder.useHuffman then PrintableAscii value else Latin1 value)
    (hshort' : value.length < stringBound) :
    ∃ rep : WireRepresentation,
      encoder.emitLiteral indexing.prefixBits indexing.flag ((findStaticNameIndex name).getD 0)
        (if (findStaticNameIndex name).isNone then some name else none) value = .ok rep.wire ∧ rep.Spells name value ∧
          rep.Enters (indexing = .incremental) name value := by
  obtain ⟨l, hl, htext⟩ := encoder.encodeString_wire hshort' hvalue
  cases hfind : findStaticNameIndex name with
  | some index =>
      obtain ⟨hrange, e, he, hresolve⟩ := findStatic_resolves hfind
      refine ⟨.literal (.indexed ⟨index, hrange⟩) l indexing, ?_, fun dynamic => ?_, fun dynamic => ?_⟩
      · rw [emitLiteral, Option.getD_some, encodeInteger_natCast, hl]
        show Except.ok (_ ++ [] ++ _) = _
        rw [List.append_assoc]
        rfl
      · refine ⟨if indexing = .incremental then dynamic.add e.name l.text else dynamic,
          { name := e.name, value := l.text, indexing := indexing = .incremental }, ?_, of_decide_eq_true he, htext⟩
        simp only [WireRepresentation.read, WireName.read, Representation.apply, LiteralName.resolve, hresolve, Option.map_some,
          ResolvedHeader.name]
      · have hsame : e.name = name := of_decide_eq_true he
        simp only [WireRepresentation.read, WireName.read, Representation.apply, LiteralName.resolve, hresolve, Option.map_some,
          ResolvedHeader.name, hsame, htext, decide_eq_true_eq]
  | none =>
      have hcoded : if encoder.useHuffman then PrintableAscii name else Latin1 name := by
        split
        · exact hname
        · exact hname.latin1
      obtain ⟨l', hl', htext'⟩ := encoder.encodeString_wire hshort hcoded
      refine ⟨.literal (.new l') l indexing, ?_, fun dynamic => ⟨_, _, rfl, htext', htext⟩, fun dynamic => ?_⟩
      · rw [emitLiteral, Option.getD_none, encodeInteger_natCast, hl]
        simp only [Option.isNone_none, if_true, hl']
        show Except.ok (_ ++ _ ++ _) = _
        rw [List.append_assoc]
        rfl
      · simp only [WireRepresentation.read, WireName.read, Representation.apply, LiteralName.resolve, Option.map_some, htext, htext',
          decide_eq_true_eq]

/-- Whichever representation is planned for a field, it reads back as that field. -/
theorem emitHeader_wire {field : HeaderField} (h : field.Encodable encoder.useHuffman) :
    ∃ rep : WireRepresentation, encoder.emitHeader (planHeader field) = .ok rep.wire ∧
      rep.Spells (normalizeName field.name) field.value ∧ rep.Enters field.enters (normalizeName field.name) field.value := by
  have hliteral := fun indexing => encoder.emitLiteral_wire indexing h.name.normalizeName
    ((normalizeName_length _).trans_lt h.shortName) h.value h.shortValue
  rw [planHeader, HeaderField.enters]
  split
  · rename_i hsensitive
    rw [hsensitive, Bool.not_true, Bool.and_false, Bool.false_and]
    exact hliteral .neverIndexed
  · rename_i hsensitive
    rw [Bool.eq_false_iff.mpr hsensitive, Bool.not_false, Bool.and_true]
    cases hexact : findStaticExactIndex (normalizeName field.name) field.value with
    | some index =>
        obtain ⟨hrange, e, he, hresolve⟩ := findStatic_resolves hexact
        obtain ⟨hname, hvalue⟩ := of_decide_eq_true he
        refine ⟨.indexed ⟨index, hrange⟩, congrArg (Except.map (setFlag 0x80)) (encodeInteger_natCast index 7), fun dynamic => ?_,
          fun dynamic => ?_⟩
        · refine ⟨dynamic, { name := e.name, value := e.value, indexing := false }, ?_, hname, hvalue⟩
          simp only [WireRepresentation.read, Representation.apply, hresolve, Option.map_some, ResolvedHeader.name,
            ResolvedHeader.value]
        · rw [Option.isNone_some, Bool.and_false, WireRepresentation.read, Representation.apply, hresolve]
          rfl
    | none =>
        rw [Option.isNone_none, Bool.and_true]
        dsimp only
        split
        · rename_i hindexing
          rw [hindexing]
          exact hliteral .incremental
        · rename_i hindexing
          rw [Bool.eq_false_iff.mpr hindexing]
          exact hliteral .noIndexing

theorem emitHeaders_wire {headers : List HeaderField} (h : ∀ field ∈ headers, field.Encodable encoder.useHuffman) :
    ∃ reps : List WireRepresentation, encoder.emitHeaders headers = .ok (blockOctets reps) ∧
      List.Forall₂ (fun rep field => rep.Spells (normalizeName field.name) field.value) reps headers ∧
      List.Forall₂ (fun rep field => rep.Enters field.enters (normalizeName field.name) field.value) reps headers := by
  induction headers with
  | nil => exact ⟨[], rfl, .nil, .nil⟩
  | cons field headers ih =>
      obtain ⟨rep, hrep, hspells, henters⟩ := encoder.emitHeader_wire (h field List.mem_cons_self)
      obtain ⟨reps, hreps, hall, hall'⟩ := ih fun f hf => h f (List.mem_cons_of_mem _ hf)
      refine ⟨rep :: reps, ?_, .cons hspells hall, .cons henters hall'⟩
      rw [emitHeaders, hrep, hreps]
      rfl

end HpackEncoder

/-! ### Blocks -/

/-- A field as it comes back: its name in lower case. -/
def HeaderField.lowered (field : HeaderField) : String × String := (normalizeName field.name, field.value)

def HeaderBlock.pairs (block : HeaderBlock) : List (String × String) := block.map fun field => (field.name, field.value)

theorem applyAll_spells {reps : List WireRepresentation} {headers : List HeaderField}
    (h : List.Forall₂ (fun rep field => rep.Spells (normalizeName field.name) field.value) reps headers) (dynamic : DynamicTable) :
    ∃ block, applyAll dynamic (reps.map WireRepresentation.read) = some block ∧
      HeaderBlock.pairs block = headers.map HeaderField.lowered := by
  induction h generalizing dynamic with
  | nil => exact ⟨[], rfl, rfl⟩
  | @cons rep field reps headers hspells _ ih =>
      obtain ⟨dynamic', field', happly, hname, hvalue⟩ := hspells dynamic
      obtain ⟨block, hblock, hpairs⟩ := ih dynamic'
      refine ⟨field' :: block, ?_, ?_⟩
      · rw [List.map_cons, applyAll, happly]
        show Option.map _ (applyAll dynamic' _) = _
        rw [hblock]
        rfl
      · rw [HeaderBlock.pairs, List.map_cons, List.map_cons, hname, hvalue, ← hpairs]
        rfl

/-- A size update of any size is read up to its end, and the block goes on behind it. -/
theorem readFrom_sizeUpdate (n : Nat) :
    ∃ size, (n < Js.exactBound → size = .finite n) ∧ ∀ reps,
      readBlock (setFlag 0x20 (integerOctets n 5) ++ blockOctets reps) =
        some (.sizeUpdate size :: reps.map WireRepresentation.read) := by
  obtain ⟨first, more, hoctets, hfirst⟩ := integerOctets_cons n (show 5 ≤ 8 by decide)
  have hmarked : (first ||| 0x20).toNat = first.toNat ||| (0x20 : UInt8).toNat := UInt8.toNat_or _ _
  have hlt : first.toNat < 2 ^ 5 := by omega
  have hlow : (first ||| 0x20).toNat &&& (2 ^ 5 - 1) = first.toNat := hmarked ▸ (sizeUpdate_bits _ hlt).1
  obtain ⟨size, hexact, hsize⟩ := decodeInteger_ends (show 5 ≤ 7 by decide) hoctets hlow
  have hset : setFlag 0x20 (integerOctets n 5) = (first ||| 0x20) :: more := by rw [hoctets, setFlag]
  refine ⟨size, hexact, fun reps => ?_⟩
  have hread := hsize [] (blockOctets reps)
  rw [List.nil_append, List.length_nil, Nat.zero_add] at hread
  rw [hset, readBlock, readFrom_of_lt (Nat.zero_lt_succ _)]
  show (readRepresentation _ 0 (first ||| 0x20)).bind _ = _
  rw [readRepresentation_sizeUpdate hlt hmarked hread]
  show Option.map _ (readFrom _ _) = _
  rw [readFrom_blockOctets]
  rfl

theorem HpackDecoder.decode_of_readFrom (decoder : HpackDecoder) {buf : Bytes} {reps : List Representation} {block : HeaderBlock}
    (hread : readFrom buf 0 = some reps) (happly : applyAll decoder.dynamic reps = some block) :
    (decoder.decode buf).2 = .ok block := by
  have hdecode := decodeFrom_eq decoder.dynamic buf 0 []
  rw [hread, Option.bind_some, happly] at hdecode
  exact toOption_eq_some_iff.mp hdecode

/-- A block an encoder writes decodes under every decoder, and the encoder has spent its size update. -/
theorem HpackEncoder.encode_decodes (encoder : HpackEncoder) (hsize : ∀ size ∈ encoder.nextSizeUpdate, 0 ≤ size)
    {headers : List HeaderField} (h : ∀ field ∈ headers, field.Encodable encoder.useHuffman) :
    (encoder.encode headers).1 = { encoder with nextSizeUpdate := none } ∧
      ∃ octets, (encoder.encode headers).2 = .ok octets ∧ ∀ decoder : HpackDecoder,
        ∃ block, (decoder.decode octets).2 = .ok block ∧ HeaderBlock.pairs block = headers.map HeaderField.lowered := by
  obtain ⟨reps, hreps, hspells, -⟩ := encoder.emitHeaders_wire h
  rw [encode]
  cases hnext : encoder.nextSizeUpdate with
  | none =>
      have hsame : encoder = { encoder with nextSizeUpdate := none } := by rw [← hnext]
      refine ⟨hsame, blockOctets reps, hreps, fun decoder => ?_⟩
      obtain ⟨block, hblock, hpairs⟩ := applyAll_spells hspells decoder.dynamic
      exact ⟨block, decoder.decode_of_readFrom (readBlock_blockOctets reps) hblock, hpairs⟩
  | some newLimit =>
      obtain ⟨n, rfl⟩ := Int.eq_ofNat_of_zero_le (hsize newLimit hnext)
      have hupdate : encodeSizeUpdate n = .ok (setFlag 0x20 (integerOctets n 5)) :=
        congrArg (Except.map (setFlag 0x20)) (encodeInteger_natCast n 5)
      dsimp only
      rw [hupdate]
      refine ⟨rfl, setFlag 0x20 (integerOctets n 5) ++ blockOctets reps, by rw [hreps]; rfl, fun decoder => ?_⟩
      obtain ⟨size, -, hread⟩ := readFrom_sizeUpdate n
      obtain ⟨block, hblock, hpairs⟩ := applyAll_spells hspells (decoder.dynamic.setLimit size)
      refine ⟨block, decoder.decode_of_readFrom (hread reps) ?_, hpairs⟩
      show Option.map _ (applyAll (decoder.dynamic.setLimit size) _) = _
      rw [hblock]
      rfl

/-! ### A connection's header blocks -/

/-- A call of an encoder. -/
inductive EncoderCall where
  | setMaxTableSize (maxSize : Nat)
  | encode (headers : List HeaderField)

def EncoderCall.headers : EncoderCall → Option (List HeaderField)
  | .setMaxTableSize _ => none
  | .encode headers => some headers

/-- The blocks a decoder reads when it is fed an encoder's output in order. The first failure ends it. -/
def exchange (encoder : HpackEncoder) (decoder : HpackDecoder) : List EncoderCall → Except HpackError (List HeaderBlock)
  | [] => .ok []
  | .setMaxTableSize maxSize :: calls => exchange (encoder.setMaxTableSize maxSize) decoder calls
  | .encode headers :: calls => do
      let octets ← (encoder.encode headers).2
      let block ← (decoder.decode octets).2
      let blocks ← exchange (encoder.encode headers).1 (decoder.decode octets).1 calls
      return block :: blocks

/-- Every block comes back, in any state of the decoder and with any sound size update pending. -/
theorem exchange_ok (encoder : HpackEncoder) (hsize : ∀ size ∈ encoder.nextSizeUpdate, 0 ≤ size) (decoder : HpackDecoder)
    {calls : List EncoderCall}
    (h : ∀ headers ∈ calls.filterMap EncoderCall.headers, ∀ field ∈ headers, field.Encodable encoder.useHuffman) :
    ∃ blocks, exchange encoder decoder calls = .ok blocks ∧
      blocks.map HeaderBlock.pairs = (calls.filterMap EncoderCall.headers).map (List.map HeaderField.lowered) := by
  induction calls generalizing encoder decoder with
  | nil => exact ⟨[], rfl, rfl⟩
  | cons call calls ih =>
      cases call with
      | setMaxTableSize maxSize =>
          refine ih (encoder.setMaxTableSize maxSize) (fun size hmem => ?_) decoder h
          obtain rfl := Option.some.inj hmem
          exact Int.natCast_nonneg maxSize
      | encode headers =>
          simp only [List.filterMap_cons, EncoderCall.headers, List.forall_mem_cons] at h
          obtain ⟨hspent, octets, hoctets, hdecodes⟩ := encoder.encode_decodes hsize h.1
          obtain ⟨block, hblock, hpairs⟩ := hdecodes decoder
          obtain ⟨blocks, hblocks, hall⟩ := ih (encoder.encode headers).1 (fun size hmem => by simp [hspent] at hmem)
            (decoder.decode octets).1 (by rw [hspent]; exact h.2)
          refine ⟨block :: blocks, ?_, ?_⟩
          · rw [exchange, hoctets]
            show ((decoder.decode octets).2 >>= fun block => _) = _
            rw [hblock]
            show (exchange _ _ _ >>= fun blocks => _) = _
            rw [hblocks]
            rfl
          · simp only [List.filterMap_cons, EncoderCall.headers, List.map_cons, hpairs, hall]

/-- A decoder fed the output of one encoder in order reads every block back, with its names in lower case. -/
theorem header_blocks_round_trip (maxTableSize : Option Nat) (useHuffman : Option Bool) (decoder : HpackDecoder)
    (calls : List EncoderCall)
    (h : ∀ headers ∈ calls.filterMap EncoderCall.headers, ∀ field ∈ headers, field.Encodable (useHuffman.getD true)) :
    ∃ blocks, exchange (.create (maxTableSize.map Int.ofNat) useHuffman) decoder calls = .ok blocks ∧
      blocks.map HeaderBlock.pairs = (calls.filterMap EncoderCall.headers).map (List.map HeaderField.lowered) := by
  refine exchange_ok _ (fun size hmem => ?_) decoder h
  rw [HpackEncoder.create] at hmem
  dsimp only at hmem
  split at hmem
  · obtain rfl := Option.some.inj hmem
    cases maxTableSize with
    | none => decide
    | some n => exact Int.natCast_nonneg n
  · simp at hmem

/-- A request's block, and one with a new size and a name the decoder has indexed. -/
theorem header_blocks_round_trip_resized :
    let calls : List EncoderCall :=
      [ .encode [⟨":method", "GET", false, false⟩, ⟨"X-Token", "s3cret", true, false⟩], .setMaxTableSize 0,
        .encode [⟨"x-token", "~", true, true⟩] ]
    ∃ blocks, exchange (.create (some 100) none) (.create (.finite 256)) calls = .ok blocks ∧
      blocks.map HeaderBlock.pairs = (calls.filterMap EncoderCall.headers).map (List.map HeaderField.lowered) := by
  have hshort : ∀ {n : Nat}, n < 100 → n < stringBound := by
    intro n hn
    rw [stringBound]
    omega
  refine header_blocks_round_trip (some 100) none (.create (.finite 256)) _ ?_
  simp only [List.filterMap_cons, List.filterMap_nil, EncoderCall.headers, List.forall_mem_cons, List.not_mem_nil,
    false_imp_iff, implies_true, and_true]
  refine ⟨⟨⟨?_, ?_, hshort ?_, hshort ?_⟩, ⟨?_, ?_, hshort ?_, hshort ?_⟩⟩, ⟨?_, ?_, hshort ?_, hshort ?_⟩⟩ <;> decide

end BrowsercoreHttp2
