import BrowsercoreHttp2.Hpack.HuffmanRoundTrip
import BrowsercoreHttp2.Hpack.Representation

/-!
# How far a header block expands

Every field of a block costs an octet at least. Its name and its value are spelled out, where a character takes five bits or
more, or they come out of a table, whose entries are short or were spelled out before. So a block yields no more fields than
it has octets, and no text longer than eight fifths of the octets it was spelled in.
-/

namespace BrowsercoreHttp2

/-- The octets are enough to spell the text, or it is as short as the texts of the static table. -/
def TextWithin (octets : Nat) (s : String) : Prop := stringLength s ≤ 27 ∨ 5 * stringLength s ≤ 8 * octets

theorem TextWithin.mono {octets octets' : Nat} {s : String} (h : TextWithin octets s) (hle : octets ≤ octets') : TextWithin octets' s :=
  h.imp_right fun hspelled => by omega

/-! ### Spelling -/

theorem stringLength_decodeLatin1 {chars : List Nat} (h : ∀ c ∈ chars, c < 0xd800) : stringLength (decodeLatin1 chars) = chars.length := by
  have hunit : ∀ c ∈ chars, (if (Char.ofNat c).toNat < 0x10000 then 1 else 2) = 1 := by
    intro c hc
    have hlt := h c hc
    rw [toNat_charOfNat hlt, if_pos (by omega)]
  rw [stringLength, decodeLatin1, String.toList_ofList, List.map_map]
  calc (chars.map fun c => if (Char.ofNat c).toNat < 0x10000 then 1 else 2).sum
      = (chars.map fun _ => 1).sum := by rw [List.map_congr_left hunit]
    _ = chars.length := by rw [List.map_const', List.sum_replicate_nat, Nat.mul_one]

/-- A character takes five of the bits that are left. -/
theorem huffmanDecodeFrom_length {buf : Bytes} {stop : Nat} {r : HuffmanReader} {chars out : List Nat}
    (h : huffmanDecodeFrom buf stop r chars = .ok out) (hchars : ∀ c ∈ chars, c < 257) :
    5 * out.length ≤ 5 * chars.length + r.remaining stop ∧ ∀ c ∈ out, c < 257 := by
  fun_induction huffmanDecodeFrom buf stop r chars with
  | case1 => simp at h
  | case2 => simp at h
  | case3 r chars hmore filled hrefill row hmatch next hpadding =>
      obtain ⟨hconsume, hbits⟩ := HuffmanReader.consume_remaining stop hmatch
      rw [HuffmanReader.refill_remaining hrefill] at hconsume
      obtain rfl := Except.ok.inj h
      have hsymbol := huffmanTable_symbol_lt (List.mem_of_find?_eq_some hmatch)
      refine ⟨?_, List.forall_mem_append.mpr ⟨hchars, List.forall_mem_singleton.mpr hsymbol⟩⟩
      rw [List.length_append, List.length_singleton]
      omega
  | case4 r chars hmore filled hrefill row hmatch next hpadding ih =>
      obtain ⟨hconsume, hbits⟩ := HuffmanReader.consume_remaining stop hmatch
      rw [HuffmanReader.refill_remaining hrefill] at hconsume
      have hleft : next.remaining stop + row.bits = r.remaining stop := hconsume
      have hsymbol := huffmanTable_symbol_lt (List.mem_of_find?_eq_some hmatch)
      obtain ⟨hlength, hout⟩ := ih h (List.forall_mem_append.mpr ⟨hchars, List.forall_mem_singleton.mpr hsymbol⟩)
      rw [List.length_append, List.length_singleton] at hlength
      exact ⟨by omega, hout⟩
  | case5 =>
      obtain rfl := Except.ok.inj h
      exact ⟨by omega, hchars⟩

theorem huffmanDecode_length {buf : Bytes} {offset length : Nat} {decoded : DecodedHuffman}
    (h : huffmanDecode buf offset length = .ok decoded) : 5 * stringLength decoded.value ≤ 8 * length := by
  rw [huffmanDecode] at h
  split at h
  · simp at h
  · rename_i chars hchars
    obtain ⟨hlength, hsymbols⟩ := huffmanDecodeFrom_length hchars (fun _ hc => absurd hc List.not_mem_nil)
    have hremaining : HuffmanReader.remaining (offset + length) ⟨0, 0, offset⟩ = 8 * length := by
      rw [HuffmanReader.remaining, Nat.add_sub_cancel_left, Nat.add_zero]
    rw [hremaining, List.length_nil] at hlength
    rw [← Except.ok.inj h]
    rw [stringLength_decodeLatin1 fun c hc => (hsymbols c hc).trans (by decide)]
    omega

/-- A string is spelled in octets of the buffer. -/
theorem decodeString_within {buf : Bytes} {offset : JsNat} {decoded : DecodedString} (h : decodeString buf offset = .ok decoded) :
    TextWithin buf.length decoded.value := by
  unfold decodeString at h
  split at h
  · rename_i start flagOctet _
    unfold decodeStringAt at h
    dsimp only at h
    split at h
    · simp at h
    · rename_i lengthResult hlength
      split at h
      · simp at h
      · rename_i hfits
        split at h
        · rename_i n hn
          rw [hn] at hfits
          simp only [JsNat.past, JsNat.lt, decide_eq_true_eq] at hfits
          refine .inr ?_
          split at h
          · split at h
            · simp at h
            · rename_i huffResult hhuffman
              have hspelled := huffmanDecode_length hhuffman
              rw [← Except.ok.inj h]
              dsimp only
              omega
          · have hoctets : ∀ c ∈ ((buf.drop lengthResult.nextOffset).take n).map UInt8.toNat, c < 0xd800 := by
              intro c hc
              obtain ⟨octet, -, hoctet⟩ := List.mem_map.mp hc
              have hlt := octet.toNat_lt
              omega
            rw [← Except.ok.inj h]
            dsimp only
            rw [stringLength_decodeLatin1 hoctets, List.length_map, List.length_take, List.length_drop]
            omega
        · rw [← Except.ok.inj h]
          exact .inl (Nat.zero_le _)
  · simp at h

/-! ### Tables -/

/-- The texts of a table are no longer than the octets that spelled them allow. -/
def DynamicTable.Within (octets : Nat) (t : DynamicTable) : Prop :=
  ∀ e ∈ t.entries, TextWithin octets e.name ∧ TextWithin octets e.value

def HeaderField.Within (octets : Nat) (field : HeaderField) : Prop := TextWithin octets field.name ∧ TextWithin octets field.value

theorem staticTable_short : ∀ entry ∈ staticTable, stringLength entry.name ≤ 27 ∧ stringLength entry.value ≤ 27 := by
  decide +kernel

namespace DynamicTable

variable {octets : Nat} {t : DynamicTable}

theorem Within.resolve (h : t.Within octets) {index : JsNat} {resolved : ResolvedHeader} (hresolve : resolveIndex index t = some resolved) :
    TextWithin octets resolved.name ∧ TextWithin octets resolved.value := by
  unfold resolveIndex at hresolve
  split at hresolve
  · split at hresolve
    · simp at hresolve
    · split at hresolve
      · obtain ⟨entry, hentry, rfl⟩ := Option.map_eq_some_iff.mp hresolve
        exact (staticTable_short entry (List.mem_of_getElem? hentry)).imp Or.inl Or.inl
      · obtain ⟨entry, hentry, rfl⟩ := Option.map_eq_some_iff.mp hresolve
        exact h entry (List.mem_of_getElem? hentry)
  · simp at hresolve

theorem Within.add (h : t.Within octets) {name value : String} (hname : TextWithin octets name) (hvalue : TextWithin octets value) :
    (t.add name value).Within octets := by
  intro e he
  rcases List.mem_cons.mp ((t.add_prefix name value).subset he) with rfl | hold
  · exact ⟨hname, hvalue⟩
  · exact h e hold

theorem Within.setLimit (h : t.Within octets) (limit : JsNat) : (t.setLimit limit).Within octets :=
  fun e he => h e ((t.setLimit_prefix limit).subset he)

end DynamicTable

/-! ### Representations -/

/-- The texts a representation spells. -/
def Representation.Within (octets : Nat) : Representation → Prop
  | .literal name value _ => (∀ text, name = .new text → TextWithin octets text) ∧ TextWithin octets value
  | _ => True

theorem readLiteral_within {buf : Bytes} {offset : Nat} {octet : UInt8} {indexing : LiteralIndexing} {rep : Representation}
    {next : JsNat} (h : readLiteral buf offset octet indexing = some (rep, next)) : rep.Within buf.length := by
  simp only [readLiteral, Option.bind_eq_bind, Option.bind_eq_some_iff, Option.pure_def, Option.some.injEq, Prod.mk.injEq] at h
  obtain ⟨nameIndexResult, -, ⟨name, nameOffset⟩, hname, valueResult, hvalue, rfl, -⟩ := h
  refine ⟨fun text htext => ?_, decodeString_within (toOption_eq_some_iff.mp hvalue)⟩
  rw [readLiteralName] at hname
  split at hname
  · obtain ⟨strResult, hstr, heq⟩ := Option.map_eq_some_iff.mp hname
    obtain ⟨hnew, -⟩ := Prod.mk.inj heq
    obtain rfl := LiteralName.new.inj (hnew.trans htext)
    exact decodeString_within (toOption_eq_some_iff.mp hstr)
  · obtain ⟨hindexed, -⟩ := Prod.mk.inj (Option.some.inj hname)
    exact absurd (hindexed.trans htext) (by simp)

theorem readRepresentation_within {buf : Bytes} {offset : Nat} {octet : UInt8} {rep : Representation} {next : JsNat}
    (h : readRepresentation buf offset octet = some (rep, next)) : rep.Within buf.length := by
  rw [readRepresentation] at h
  split at h
  · obtain ⟨result, -, heq⟩ := Option.map_eq_some_iff.mp h
    obtain ⟨rfl, -⟩ := Prod.mk.inj heq
    exact trivial
  · split at h
    · exact readLiteral_within h
    · split at h
      · obtain ⟨result, -, heq⟩ := Option.map_eq_some_iff.mp h
        obtain ⟨rfl, -⟩ := Prod.mk.inj heq
        exact trivial
      · split at h
        · exact readLiteral_within h
        · exact readLiteral_within h

/-- The texts of the table and of the field come from the table or from the representation. -/
theorem Representation.Within.apply {octets : Nat} {t t' : DynamicTable} {rep : Representation} {field : Option HeaderField}
    (hrep : rep.Within octets) (ht : t.Within octets) (h : rep.apply t = some (t', field)) :
    t'.Within octets ∧ ∀ f ∈ field, f.Within octets := by
  cases rep with
  | indexed index =>
      obtain ⟨resolved, hresolve, heq⟩ := Option.map_eq_some_iff.mp h
      obtain ⟨rfl, rfl⟩ := Prod.mk.inj heq
      refine ⟨ht, fun f hf => ?_⟩
      rw [← Option.some.inj hf]
      exact ht.resolve hresolve
  | literal name value indexing =>
      obtain ⟨text, hresolve, heq⟩ := Option.map_eq_some_iff.mp h
      obtain ⟨rfl, rfl⟩ := Prod.mk.inj heq
      have htext : TextWithin octets text := by
        cases name with
        | indexed index =>
            obtain ⟨resolved, hindex, rfl⟩ := Option.map_eq_some_iff.mp hresolve
            exact (ht.resolve hindex).1
        | new name =>
            obtain rfl := Option.some.inj hresolve
            exact hrep.1 name rfl
      constructor
      · split
        · exact ht.add htext hrep.2
        · exact ht
      · intro f hf
        rw [← Option.some.inj hf]
        exact ⟨htext, hrep.2⟩
  | sizeUpdate size =>
      obtain ⟨rfl, rfl⟩ := Prod.mk.inj (Option.some.inj h)
      exact ⟨ht.setLimit size, fun f hf => absurd hf (by simp)⟩

/-! ### Blocks -/

theorem decodeRepresentation_within {octets : Nat} {t t' : DynamicTable} {buf : Bytes} {offset : Nat} {octet : UInt8}
    {field : Option HeaderField} {next : JsNat} (ht : t.Within octets) (hoctets : buf.length ≤ octets)
    (h : decodeRepresentation t buf offset octet = .ok (t', field, next)) : t'.Within octets ∧ ∀ f ∈ field.toList, f.Within octets := by
  obtain ⟨rep, hread, happly⟩ := decodeRepresentation_ok_iff.mp h
  have hrep : rep.Within octets := by
    have hspelled := readRepresentation_within hread
    cases rep with
    | literal name value indexing => exact ⟨fun text htext => (hspelled.1 text htext).mono hoctets, hspelled.2.mono hoctets⟩
    | _ => exact trivial
  obtain ⟨htable, hfield⟩ := hrep.apply ht happly
  exact ⟨htable, fun f hf => hfield f (Option.mem_toList.mp hf)⟩

/-- Decoding leaves the table with texts that have been spelled, also when it fails, and returns a field an octet at most. -/
theorem decodeFrom_within {octets : Nat} {t : DynamicTable} {buf : Bytes} {offset : Nat} {out : HeaderBlock} (ht : t.Within octets)
    (hoctets : buf.length ≤ octets) (hout : ∀ f ∈ out, f.Within octets) :
    (decodeFrom t buf offset out).1.Within octets ∧
      ∀ block, (decodeFrom t buf offset out).2 = .ok block →
        block.length ≤ out.length + (buf.length - offset) ∧ ∀ f ∈ block, f.Within octets := by
  have hone : ∀ field : Option HeaderField, field.toList.length ≤ 1 := fun field => by cases field <;> simp
  fun_induction decodeFrom t buf offset out with
  | case1 => exact ⟨ht, fun block hblock => absurd hblock (by simp)⟩
  | case2 t offset out h t' field next hdecode ih =>
      obtain ⟨ht', hfield⟩ := decodeRepresentation_within ht hoctets hdecode
      obtain ⟨htable, hblock⟩ := ih ht' (List.forall_mem_append.mpr ⟨hout, hfield⟩)
      have hprogress := decodeRepresentation_nextOffset hdecode
      refine ⟨htable, fun block hdone => ?_⟩
      obtain ⟨hlength, hfields⟩ := hblock block hdone
      have hadded := hone field
      rw [List.length_append] at hlength
      exact ⟨by omega, hfields⟩
  | case3 t offset out h t' field next hnext hdecode =>
      obtain ⟨ht', hfield⟩ := decodeRepresentation_within ht hoctets hdecode
      refine ⟨ht', fun block hdone => ?_⟩
      obtain rfl := Except.ok.inj hdone
      have hadded := hone field
      rw [List.length_append]
      exact ⟨by omega, List.forall_mem_append.mpr ⟨hout, hfield⟩⟩
  | case4 t offset out h =>
      refine ⟨ht, fun block hdone => ?_⟩
      obtain rfl := Except.ok.inj hdone
      exact ⟨by omega, hout⟩

theorem headerMap_within {octets : Nat} {block : HeaderBlock} (h : ∀ f ∈ block, f.Within octets) :
    (headerMap block).entries.length ≤ block.length ∧
      ∀ field ∈ (headerMap block).entries, TextWithin octets field.1 ∧ TextWithin octets field.2 := by
  induction block using List.reverseRecOn with
  | nil => exact ⟨Nat.zero_le _, fun _ hmem => absurd hmem List.not_mem_nil⟩
  | append_singleton block f ih =>
      obtain ⟨hlength, hfields⟩ := ih fun f' hf' => h f' (List.mem_append_left _ hf')
      have hlast := h f (List.mem_append_right _ List.mem_cons_self)
      rw [headerMap, List.foldl_append, List.foldl_cons, List.foldl_nil, List.length_append, List.length_singleton]
      refine ⟨((headerMap block).length_set_le _).trans (by omega), fun field hfield => ?_⟩
      rcases Table.mem_set hfield with rfl | ⟨hold, -⟩
      · exact hlast
      · exact hfields field hold

theorem decodeHeaders_within {block : Bytes} {headers : HeaderMap} (h : decodeHeaders block = .ok headers) :
    headers.entries.length ≤ block.length ∧
      ∀ field ∈ headers.entries, TextWithin block.length field.1 ∧ TextWithin block.length field.2 := by
  rw [decodeHeaders] at h
  split at h
  · simp at h
  · rename_i fields hfields
    have hempty : HpackDecoder.initial.dynamic.Within block.length := fun _ hmem => absurd hmem List.not_mem_nil
    have hdecoded : (decodeFrom HpackDecoder.initial.dynamic block 0 []).2 = .ok fields := hfields
    obtain ⟨hlength, hwithin⟩ := (decodeFrom_within hempty (Nat.le_refl block.length)
      (fun _ hmem => absurd hmem List.not_mem_nil)).2 fields hdecoded
    obtain ⟨hcount, htexts⟩ := headerMap_within hwithin
    rw [← Except.ok.inj h]
    rw [List.length_nil, Nat.zero_add, Nat.sub_zero] at hlength
    exact ⟨hcount.trans hlength, htexts⟩

/-- A field for every octet. -/
example : (decodeHeaders [0x82, 0x84, 0x87]).toOption.map (·.entries.length) = some 3 := by decide +kernel

end BrowsercoreHttp2
