import BrowsercoreHttp2.Hpack.HuffmanRoundTrip
import BrowsercoreHttp2.Hpack.Representation

/-!
# Octets in other buffers

What is read of a buffer is read in the same way where its octets stand in another one, behind some octets and before
others. What does not read because the buffer is at its end does not read there either, if nothing comes after it.
-/

namespace BrowsercoreHttp2

/-- A result is found again, and a failure too if nothing comes after the octets. -/
structure Carries {α : Type} (whole : Prop) (x y : Option α) : Prop where
  found : ∀ a, x = some a → y = some a
  failed : whole → x = none → y = none

namespace Carries

variable {α β : Type} {whole : Prop} {x y : Option α}

theorem refl (x : Option α) : Carries whole x x := ⟨fun _ h => h, fun _ h => h⟩

theorem of_none (h : whole → y = none) : Carries whole none y :=
  ⟨fun _ h => absurd h.symm (Option.some_ne_none _), fun hwhole _ => h hwhole⟩

theorem bind_map {γ : Type} {z : Option γ} {move : α → γ} {f : α → Option β} {g : γ → Option β} (h : Carries whole (x.map move) z)
    (hfg : ∀ a, Carries whole (f a) (g (move a))) : Carries whole (x.bind f) (z.bind g) := by
  cases hx : x with
  | none => exact .of_none fun hwhole => by rw [h.failed hwhole (by rw [hx, Option.map_none]), Option.bind_none]
  | some a =>
      rw [h.found (move a) (by rw [hx, Option.map_some])]
      exact hfg a

theorem bind {f g : α → Option β} (h : Carries whole x y) (hfg : ∀ a, Carries whole (f a) (g a)) :
    Carries whole (x.bind f) (y.bind g) := by
  have hsame : Carries whole (x.map id) y := by rwa [Option.map_id_fun, id]
  exact hsame.bind_map hfg

theorem map (h : Carries whole x y) (f : α → β) : Carries whole (x.map f) (y.map f) := by
  cases hx : x with
  | none => exact .of_none fun hwhole => by rw [h.failed hwhole hx, Option.map_none]
  | some a =>
      rw [h.found a hx]
      exact refl _

theorem eq (h : Carries whole x y) (hwhole : whole) : y = x := by
  cases hx : x with
  | none => exact h.failed hwhole hx
  | some a => exact h.found a hx

end Carries

/-- A buffer stands in another one behind some octets. -/
structure StandsIn (buf : Bytes) (behind : Nat) (buf' : Bytes) : Prop where
  octet : ∀ i < buf.length, buf'[behind + i]? = buf[i]?
  inside : behind + buf.length ≤ buf'.length

theorem StandsIn.append_left (buf rest : Bytes) : StandsIn buf 0 (buf ++ rest) where
  octet i hi := by rw [Nat.zero_add, List.getElem?_append_left hi]
  inside := by
    rw [List.length_append]
    omega

theorem StandsIn.append_right (before buf : Bytes) : StandsIn buf before.length (before ++ buf) where
  octet i hi := by rw [List.getElem?_append_right (Nat.le_add_right _ _), Nat.add_sub_cancel_left]
  inside := by rw [List.length_append]

variable {buf buf' : Bytes} {behind : Nat}

/-- Nothing comes after the octets of a buffer where it stands. -/
abbrev Ends (buf : Bytes) (behind : Nat) (buf' : Bytes) : Prop := buf'.length = behind + buf.length

theorem StandsIn.octetAt (h : StandsIn buf behind buf') (offset : Nat) :
    Carries (Ends buf behind buf') buf[offset]? buf'[behind + offset]? := by
  by_cases hlt : offset < buf.length
  · rw [h.octet offset hlt]
    exact .refl _
  · rw [List.getElem?_eq_none (Nat.not_lt.mp hlt)]
    refine .of_none fun hends => List.getElem?_eq_none ?_
    rw [hends]
    omega

/-! ### Integers -/

def DecodedInteger.moved (behind : Nat) (decoded : DecodedInteger) : DecodedInteger := ⟨decoded.value, behind + decoded.nextOffset⟩

theorem StandsIn.continuation (h : StandsIn buf behind buf') (position : Nat) (value : JsNat) (shift : Nat) :
    Carries (Ends buf behind buf') ((decodeContinuation buf position value shift).toOption.map (DecodedInteger.moved behind))
      (decodeContinuation buf' (behind + position) value shift).toOption := by
  fun_induction decodeContinuation buf position value shift with
  | case1 position value shift hlt octet value' hlast =>
      have hget : buf'[behind + position]? = some buf[position] := by rw [h.octet position hlt, List.getElem?_eq_getElem hlt]
      rw [decodeContinuation_step hget]
      dsimp only
      rw [if_pos hlast]
      exact .refl _
  | case2 position value shift hlt octet value' hmore ih =>
      have hget : buf'[behind + position]? = some buf[position] := by rw [h.octet position hlt, List.getElem?_eq_getElem hlt]
      rw [decodeContinuation_step hget]
      dsimp only
      rw [if_neg hmore]
      exact ih
  | case3 position value shift hend =>
      refine .of_none fun hends => ?_
      rw [decodeContinuation, dif_neg (by rw [hends]; omega)]
      rfl

theorem StandsIn.integer (h : StandsIn buf behind buf') (offset prefixBits : Nat) :
    Carries (Ends buf behind buf') ((decodeInteger buf offset prefixBits).toOption.map (DecodedInteger.moved behind))
      (decodeInteger buf' (behind + offset) prefixBits).toOption := by
  have hoctet := h.octetAt offset
  rw [decodeInteger, decodeInteger]
  cases hfirst : buf[offset]? with
  | none =>
      refine .of_none fun hends => ?_
      rw [hoctet.failed hends hfirst]
      rfl
  | some first =>
      rw [hoctet.found first hfirst]
      dsimp only
      split
      · exact .refl _
      · exact h.continuation (offset + 1) _ 0

/-! ### Strings -/

def HuffmanReader.moved (behind : Nat) (r : HuffmanReader) : HuffmanReader := { r with position := behind + r.position }

theorem HuffmanReader.moved_position (r : HuffmanReader) : (r.moved behind).position = behind + r.position := rfl

theorem HuffmanReader.moved_bitsAvailable (r : HuffmanReader) : (r.moved behind).bitsAvailable = r.bitsAvailable := rfl

theorem StandsIn.refill (h : StandsIn buf behind buf') {stop : Nat} (hstop : stop ≤ buf.length) (r : HuffmanReader) :
    (r.moved behind).refill buf' (behind + stop) = (r.refill buf stop).map (HuffmanReader.moved behind) := by
  fun_induction HuffmanReader.refill buf stop r with
  | case1 r hmore hnone =>
      have hin : r.position < buf.length := hmore.2.trans_le hstop
      exact absurd hnone (by rw [List.getElem?_eq_getElem hin]; exact Option.some_ne_none _)
  | case2 r hmore octet hoctet ih =>
      have hmore' : (r.moved behind).bitsAvailable < 30 ∧ (r.moved behind).position < behind + stop :=
        ⟨hmore.1, Nat.add_lt_add_left hmore.2 behind⟩
      have hoctet' : buf'[(r.moved behind).position]? = some octet := (h.octet _ (hmore.2.trans_le hstop)).trans hoctet
      rw [HuffmanReader.refill, if_pos hmore', hoctet']
      exact ih
  | case3 r hdone =>
      have hdone' : ¬ ((r.moved behind).bitsAvailable < 30 ∧ (r.moved behind).position < behind + stop) := fun hmore =>
        hdone ⟨hmore.1, Nat.lt_of_add_lt_add_left hmore.2⟩
      rw [HuffmanReader.refill, if_neg hdone']
      rfl

theorem HuffmanReader.atPadding_moved (stop : Nat) (r : HuffmanReader) :
    (r.moved behind).atPadding (behind + stop) = r.atPadding stop := by
  have hreached : decide (behind + stop ≤ (r.moved behind).position) = decide (stop ≤ r.position) := by
    rw [moved_position, decide_eq_decide]
    omega
  rw [atPadding, hreached]
  rfl

theorem StandsIn.huffmanLoop (h : StandsIn buf behind buf') {stop : Nat} (hstop : stop ≤ buf.length) (r : HuffmanReader)
    (chars : List Nat) :
    huffmanDecodeFrom buf' (behind + stop) (r.moved behind) chars = huffmanDecodeFrom buf stop r chars := by
  have hmoved : ∀ r : HuffmanReader, ((r.moved behind).position < behind + stop ∨ 0 < (r.moved behind).bitsAvailable) ↔
      (r.position < stop ∨ 0 < r.bitsAvailable) := by
    intro r
    rw [HuffmanReader.moved_position, HuffmanReader.moved_bitsAvailable]
    omega
  fun_induction huffmanDecodeFrom buf stop r chars with
  | case1 r chars hmore e hrefill =>
      have hrefill' := h.refill hstop r
      rw [hrefill] at hrefill'
      rw [huffmanDecodeFrom, if_pos ((hmoved r).mpr hmore)]
      split
      · rename_i e' herror
        exact congrArg Except.error (Except.error.inj (herror.symm.trans hrefill'))
      · rename_i filled hfilled
        exact absurd (hfilled.symm.trans hrefill') (by simp [Except.map])
  | case2 r chars hmore filled hrefill hmatch =>
      have hrefill' := h.refill hstop r
      rw [hrefill] at hrefill'
      rw [huffmanDecodeFrom, if_pos ((hmoved r).mpr hmore)]
      split
      · rename_i e' herror
        exact absurd (herror.symm.trans hrefill') (by simp [Except.map])
      · rename_i filled' hfilled'
        obtain rfl := Except.ok.inj (hfilled'.symm.trans hrefill')
        split
        · rfl
        · rename_i row hsome
          exact absurd (hmatch.symm.trans hsome) (by simp)
  | case3 r chars hmore filled hrefill row hmatch next hpadding =>
      have hrefill' := h.refill hstop r
      rw [hrefill] at hrefill'
      rw [huffmanDecodeFrom_step ((hmoved r).mpr hmore) hrefill' hmatch, if_pos]
      exact (HuffmanReader.atPadding_moved stop next).trans hpadding
  | case4 r chars hmore filled hrefill row hmatch next hpadding ih =>
      have hrefill' := h.refill hstop r
      rw [hrefill] at hrefill'
      rw [huffmanDecodeFrom_step ((hmoved r).mpr hmore) hrefill' hmatch, if_neg]
      · exact ih
      · exact fun hpadding' => hpadding ((HuffmanReader.atPadding_moved stop next).symm.trans hpadding')
  | case5 r chars hdone =>
      rw [huffmanDecodeFrom, if_neg (mt (hmoved r).mp hdone)]

theorem StandsIn.huffman (h : StandsIn buf behind buf') {start length : Nat} (hin : start + length ≤ buf.length) :
    (huffmanDecode buf' (behind + start) length).toOption.map DecodedHuffman.value =
      (huffmanDecode buf start length).toOption.map DecodedHuffman.value := by
  have hdecode := h.huffmanLoop hin ⟨0, 0, start⟩ []
  rw [huffmanDecode, huffmanDecode, Nat.add_assoc]
  rw [show huffmanDecodeFrom buf' (behind + (start + length)) ⟨0, 0, behind + start⟩ [] = _ from hdecode]
  cases huffmanDecodeFrom buf (start + length) ⟨0, 0, start⟩ [] with
  | error e => rfl
  | ok chars => rfl

theorem StandsIn.slice (h : StandsIn buf behind buf') {start length : Nat} (hin : start + length ≤ buf.length) :
    (buf'.drop (behind + start)).take length = (buf.drop start).take length := by
  ext i octet
  rw [List.getElem?_take, List.getElem?_take, List.getElem?_drop, List.getElem?_drop]
  split
  · rename_i hi
    rw [Nat.add_assoc, h.octet (start + i) (by omega)]
  · rfl

theorem JsNat.past_finite (start n : Nat) : (JsNat.finite n).past start = .finite (start + n) := rfl

/-- A result and where it ends, behind other octets. -/
def movedEnd {α : Type} (behind : Nat) (result : α × JsNat) : α × JsNat := (result.1, result.2.past behind)

/-- The text and the end of a string whose length has been read. -/
def stringData (buf : Bytes) (huffmanFlag : Bool) (lengthResult : DecodedInteger) : Option (String × JsNat) :=
  let dataEnd := lengthResult.value.past lengthResult.nextOffset
  if JsNat.lt (.finite buf.length) dataEnd then none
  else
    match lengthResult.value with
    | .finite n =>
        if huffmanFlag then
          ((huffmanDecode buf lengthResult.nextOffset n).toOption.map DecodedHuffman.value).map fun text => (text, dataEnd)
        else some (decodeLatin1 (((buf.drop lengthResult.nextOffset).take n).map UInt8.toNat), dataEnd)
    | _ => some ("", dataEnd)

/-- The text of a string and where it ends, if it decodes. -/
def readString (buf : Bytes) (offset : JsNat) : Option (String × JsNat) :=
  (decodeString buf offset).toOption.map fun decoded => (decoded.value, decoded.nextOffset)

theorem readString_finite (buf : Bytes) (offset : Nat) :
    readString buf (.finite offset) =
      buf[offset]?.bind fun flagOctet => (decodeInteger buf offset 7).toOption.bind
        (stringData buf (flagOctet.toNat &&& 0x80 ≠ 0)) := by
  unfold readString decodeString octetAt
  dsimp only
  cases buf[offset]? with
  | none => rfl
  | some flagOctet =>
      dsimp only
      rw [decodeStringAt, Option.bind_some]
      dsimp only
      cases decodeInteger buf offset 7 with
      | error e => rfl
      | ok lengthResult =>
          rw [show (Except.ok lengthResult : Except HpackError DecodedInteger).toOption = some lengthResult from rfl,
            Option.bind_some, stringData]
          dsimp only
          by_cases hover : JsNat.lt (.finite buf.length) (lengthResult.value.past lengthResult.nextOffset) = true
          · rw [if_pos hover, if_pos hover]
            rfl
          · rw [if_neg hover, if_neg hover]
            cases lengthResult.value with
            | nan => rfl
            | infinity => rfl
            | finite n =>
                simp only [decide_eq_true_eq]
                split
                · cases huffmanDecode buf lengthResult.nextOffset n <;> rfl
                · rfl

theorem StandsIn.data (h : StandsIn buf behind buf') (huffmanFlag : Bool) (lengthResult : DecodedInteger) :
    Carries (Ends buf behind buf') ((stringData buf huffmanFlag lengthResult).map (movedEnd behind))
      (stringData buf' huffmanFlag (lengthResult.moved behind)) := by
  obtain ⟨value, start⟩ := lengthResult
  rw [stringData, stringData, DecodedInteger.moved]
  dsimp only
  cases value with
  | nan => exact .refl _
  | infinity => exact .of_none fun _ => rfl
  | finite n =>
      simp only [JsNat.past_finite, JsNat.lt, decide_eq_true_eq]
      by_cases hover : buf.length < start + n
      · rw [if_pos hover]
        refine .of_none fun hends => if_pos ?_
        rw [hends]
        omega
      · have hin : start + n ≤ buf.length := Nat.not_lt.mp hover
        have hin' : ¬ buf'.length < behind + start + n := by
          have hinside := h.inside
          omega
        rw [if_neg hover, if_neg hin', h.huffman hin, h.slice hin, Nat.add_assoc]
        cases huffmanFlag with
        | false => exact .refl _
        | true =>
            rw [if_pos rfl, if_pos rfl, Option.map_map]
            exact .refl _

theorem StandsIn.string (h : StandsIn buf behind buf') (offset : JsNat) :
    Carries (Ends buf behind buf') ((readString buf offset).map (movedEnd behind)) (readString buf' (offset.past behind)) := by
  cases offset with
  | nan => exact .refl _
  | infinity => exact .refl _
  | finite offset =>
      rw [JsNat.past_finite, readString_finite, readString_finite, Option.map_bind]
      refine (h.octetAt offset).bind fun flagOctet => ?_
      rw [Function.comp_apply, Option.map_bind]
      exact (h.integer offset 7).bind_map fun lengthResult => h.data _ lengthResult

/-! ### Representations -/

theorem readLiteral_eq (buf : Bytes) (offset : Nat) (octet : UInt8) (indexing : LiteralIndexing) :
    readLiteral buf offset octet indexing =
      (decodeInteger buf offset (if octet.toNat &&& 0xc0 = 0x40 then 6 else 4)).toOption.bind fun nameIndexResult =>
        (readLiteralName buf nameIndexResult).bind fun (name, nameOffset) =>
          (readString buf nameOffset).map fun (value, next) => (.literal name value indexing, next) := by
  simp only [readString, Option.map_map]
  simp only [readLiteral, Option.bind_eq_bind, Option.pure_def, Option.map_eq_bind]
  rfl

theorem StandsIn.literalName (h : StandsIn buf behind buf') (nameIndexResult : DecodedInteger) :
    Carries (Ends buf behind buf') ((readLiteralName buf nameIndexResult).map (movedEnd behind))
      (readLiteralName buf' (nameIndexResult.moved behind)) := by
  rw [readLiteralName, readLiteralName, DecodedInteger.moved]
  dsimp only
  split
  · have hstring := (h.string (.finite nameIndexResult.nextOffset)).map fun (text, next) => (LiteralName.new text, next)
    simp only [readString, Option.map_map] at hstring
    rw [Option.map_map]
    exact hstring
  · exact .refl _

theorem StandsIn.literal (h : StandsIn buf behind buf') (offset : Nat) (octet : UInt8) (indexing : LiteralIndexing) :
    Carries (Ends buf behind buf') ((readLiteral buf offset octet indexing).map (movedEnd behind))
      (readLiteral buf' (behind + offset) octet indexing) := by
  rw [readLiteral_eq, readLiteral_eq, Option.map_bind]
  refine (h.integer offset _).bind_map fun nameIndexResult => ?_
  rw [Function.comp_apply, Option.map_bind]
  refine (h.literalName nameIndexResult).bind_map fun ⟨name, nameOffset⟩ => ?_
  have hvalue := (h.string nameOffset).map fun (value, next) => (Representation.literal name value indexing, next)
  rw [Option.map_map] at hvalue
  rw [Function.comp_apply, Option.map_map]
  exact hvalue

theorem StandsIn.representation (h : StandsIn buf behind buf') (offset : Nat) (octet : UInt8) :
    Carries (Ends buf behind buf') ((readRepresentation buf offset octet).map (movedEnd behind))
      (readRepresentation buf' (behind + offset) octet) := by
  have hinteger : ∀ prefixBits (f : JsNat → Representation),
      Carries (Ends buf behind buf')
        (((decodeInteger buf offset prefixBits).toOption.map fun result =>
          (f result.value, JsNat.finite result.nextOffset)).map (movedEnd behind))
        ((decodeInteger buf' (behind + offset) prefixBits).toOption.map fun result =>
          (f result.value, JsNat.finite result.nextOffset)) := by
    intro prefixBits f
    have hmoved := (h.integer offset prefixBits).map fun result => (f result.value, JsNat.finite result.nextOffset)
    rw [Option.map_map] at hmoved ⊢
    exact hmoved
  rw [readRepresentation, readRepresentation]
  split
  · exact hinteger 7 .indexed
  · split
    · exact h.literal offset octet .incremental
    · split
      · exact hinteger 5 .sizeUpdate
      · split
        · exact h.literal offset octet .noIndexing
        · exact h.literal offset octet .neverIndexed

end BrowsercoreHttp2
