import BrowsercoreHttp2.Hpack.DynamicTable
import BrowsercoreHttp2.Hpack.Strings

/-!
# The HPACK decoder

`HpackDecoder.decode` walks a block one representation at a time. A representation that fails leaves the
dynamic table as it was before it, but what earlier representations of the block added stays, so
decoding returns the decoder it leaves behind whether it succeeds or throws.
-/

namespace BrowsercoreHttp2

structure HeaderField where
  name : String
  value : String
  indexing : Bool
  sensitive : Bool := false
  deriving DecidableEq

abbrev HeaderBlock := List HeaderField

inductive LiteralIndexing where
  | incremental
  | noIndexing
  | neverIndexed
  deriving DecidableEq

structure HpackDecoder where
  dynamic : DynamicTable
  deriving DecidableEq

/-- A literal's name: the string that follows index 0, or the name an index resolves to. -/
def decodeLiteralName (dynamic : DynamicTable) (buf : Bytes) (nameIndexResult : DecodedInteger) :
    Except HpackError (String × JsNat) :=
  if nameIndexResult.value = .finite 0 then
    match decodeString buf (.finite nameIndexResult.nextOffset) with
    | .error e => .error e
    | .ok strResult => .ok (strResult.value, strResult.nextOffset)
  else
    match resolveIndex nameIndexResult.value dynamic with
    | none => .error (.nameIndexOutOfRange nameIndexResult.value)
    | some resolved => .ok (resolved.name, .finite nameIndexResult.nextOffset)

def decodeLiteral (dynamic : DynamicTable) (buf : Bytes) (offset : Nat) (octet : UInt8) (indexing : LiteralIndexing) :
    Except HpackError (DynamicTable × HeaderField × JsNat) :=
  let prefixBits := if octet.toNat &&& 0xc0 = 0x40 then 6 else 4
  match decodeInteger buf offset prefixBits with
  | .error e => .error e
  | .ok nameIndexResult =>
      match decodeLiteralName dynamic buf nameIndexResult with
      | .error e => .error e
      | .ok (name, nameOffset) =>
          match decodeString buf nameOffset with
          | .error e => .error e
          | .ok valueResult =>
              let dynamic := if indexing = .incremental then dynamic.add name valueResult.value else dynamic
              .ok (dynamic, { name, value := valueResult.value, indexing := indexing = .incremental }, valueResult.nextOffset)

/-- One turn of the decoding loop: the table and the field it leaves, and where the next one starts. -/
def decodeRepresentation (dynamic : DynamicTable) (buf : Bytes) (offset : Nat) (octet : UInt8) :
    Except HpackError (DynamicTable × Option HeaderField × JsNat) :=
  let literal (indexing : LiteralIndexing) :=
    (decodeLiteral dynamic buf offset octet indexing).map fun (dynamic, field, next) => (dynamic, some field, next)
  if octet.toNat &&& 0x80 ≠ 0 then
    match decodeInteger buf offset 7 with
    | .error e => .error e
    | .ok result =>
        match resolveIndex result.value dynamic with
        | none => .error (.indexedOutOfRange result.value)
        | some resolved =>
            .ok (dynamic, some { name := resolved.name, value := resolved.value, indexing := false }, .finite result.nextOffset)
  else if octet.toNat &&& 0xc0 = 0x40 then literal .incremental
  else if octet.toNat &&& 0xe0 = 0x20 then
    match decodeInteger buf offset 5 with
    | .error e => .error e
    | .ok result => .ok (dynamic.setLimit result.value, none, .finite result.nextOffset)
  else if octet.toNat &&& 0xf0 = 0x00 then literal .noIndexing
  else literal .neverIndexed

/-! ### Progress -/

theorem decodeString_nextOffset {buf : Bytes} {offset : JsNat} {decoded : DecodedString} {next : Nat}
    (h : decodeString buf offset = .ok decoded) (hnext : decoded.nextOffset = .finite next) :
    ∃ start, offset = .finite start ∧ start < next ∧ next ≤ buf.length := by
  unfold decodeString at h
  split at h
  · rename_i start flagOctet _
    refine ⟨start, rfl, ?_⟩
    unfold decodeStringAt at h
    dsimp only at h
    split at h
    · simp at h
    · rename_i lengthResult hlength
      have hstart := decodeInteger_nextOffset hlength
      split at h
      · simp at h
      · rename_i hfits
        have hend : decoded.nextOffset = lengthResult.value.past lengthResult.nextOffset := by
          split at h
          · split at h
            · split at h
              · simp at h
              · simp only [Except.ok.injEq] at h
                rw [← h]
            · simp only [Except.ok.injEq] at h
              rw [← h]
          · simp only [Except.ok.injEq] at h
            rw [← h]
        rw [hnext] at hend
        rw [← hend] at hfits
        simp only [JsNat.lt, decide_eq_true_eq] at hfits
        cases hvalue : lengthResult.value with
        | finite n =>
            simp only [hvalue, JsNat.past, JsNat.finite.injEq] at hend
            omega
        | nan => simp [hvalue, JsNat.past] at hend
        | infinity => simp [hvalue, JsNat.past] at hend
  · simp at h

theorem decodeLiteral_nextOffset {dynamic dynamic' : DynamicTable} {buf : Bytes} {offset next : Nat} {octet : UInt8}
    {indexing : LiteralIndexing} {field : HeaderField}
    (h : decodeLiteral dynamic buf offset octet indexing = .ok (dynamic', field, .finite next)) : offset < next := by
  rw [decodeLiteral] at h
  dsimp only at h
  split at h
  · simp at h
  · rename_i nameIndexResult hindex
    have hprogress := decodeInteger_nextOffset hindex
    split at h
    · simp at h
    · rename_i name nameOffset hname
      split at h
      · simp at h
      · rename_i valueResult hvalue
        simp only [Except.ok.injEq, Prod.mk.injEq] at h
        obtain ⟨start, hstart, hlt, -⟩ := decodeString_nextOffset hvalue h.2.2
        have hmiddle : nameIndexResult.nextOffset ≤ start := by
          rw [decodeLiteralName] at hname
          split at hname
          · split at hname
            · simp at hname
            · rename_i strResult hstr
              simp only [Except.ok.injEq, Prod.mk.injEq] at hname
              obtain ⟨begin, hbegin, hpast, -⟩ := decodeString_nextOffset hstr (hname.2.trans hstart)
              simp only [JsNat.finite.injEq] at hbegin
              omega
          · split at hname
            · simp at hname
            · simp only [Except.ok.injEq, Prod.mk.injEq, hstart, JsNat.finite.injEq] at hname
              omega
        omega

theorem decodeRepresentation_nextOffset {dynamic dynamic' : DynamicTable} {buf : Bytes} {offset next : Nat} {octet : UInt8}
    {field : Option HeaderField} (h : decodeRepresentation dynamic buf offset octet = .ok (dynamic', field, .finite next)) :
    offset < next := by
  have hliteral : ∀ indexing, (decodeLiteral dynamic buf offset octet indexing).map
      (fun (dynamic, field, next) => (dynamic, some field, next)) = .ok (dynamic', field, .finite next) → offset < next := by
    intro indexing hmap
    cases hdecode : decodeLiteral dynamic buf offset octet indexing with
    | error e => simp [hdecode, Except.map] at hmap
    | ok result =>
        obtain ⟨table, decoded, after⟩ := result
        simp only [hdecode, Except.map, Except.ok.injEq, Prod.mk.injEq] at hmap
        exact decodeLiteral_nextOffset (hmap.2.2 ▸ hdecode)
  rw [decodeRepresentation] at h
  dsimp only at h
  split at h
  · split at h
    · simp at h
    · rename_i result hresult
      have := decodeInteger_nextOffset hresult
      split at h
      · simp at h
      · simp only [Except.ok.injEq, Prod.mk.injEq, JsNat.finite.injEq] at h
        omega
  · split at h
    · exact hliteral _ h
    · split at h
      · split at h
        · simp at h
        · rename_i result hresult
          have := decodeInteger_nextOffset hresult
          simp only [Except.ok.injEq, Prod.mk.injEq, JsNat.finite.injEq] at h
          omega
      · split at h
        · exact hliteral _ h
        · exact hliteral _ h

/-! ### Decoding a block -/

def decodeFrom (dynamic : DynamicTable) (buf : Bytes) (offset : Nat) (out : HeaderBlock) :
    DynamicTable × Except HpackError HeaderBlock :=
  if h : offset < buf.length then
    match _hdecode : decodeRepresentation dynamic buf offset buf[offset] with
    | .error e => (dynamic, .error e)
    | .ok (dynamic, field, .finite next) => decodeFrom dynamic buf next (out ++ field.toList)
    -- an offset that is not a number is not below the length, so the loop ends
    | .ok (dynamic, field, _) => (dynamic, .ok (out ++ field.toList))
  else (dynamic, .ok out)
termination_by buf.length - offset
decreasing_by
  have := decodeRepresentation_nextOffset _hdecode
  omega

namespace HpackDecoder

def create (maxTableSize : JsNat) : HpackDecoder := ⟨.create maxTableSize⟩

/-- A new decoder with the default table size. -/
def initial : HpackDecoder := ⟨.initial⟩

def decode (d : HpackDecoder) (buf : Bytes) : HpackDecoder × Except HpackError HeaderBlock :=
  let (dynamic, result) := decodeFrom d.dynamic buf 0 []
  (⟨dynamic⟩, result)

def setMaxTableSize (d : HpackDecoder) (maxSize : JsNat) : HpackDecoder := ⟨d.dynamic.setLimit maxSize⟩

end HpackDecoder

end BrowsercoreHttp2
