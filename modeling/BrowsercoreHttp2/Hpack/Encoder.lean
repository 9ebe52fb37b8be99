import BrowsercoreHttp2.Hpack.Decoder

/-!
# The HPACK encoder

The encoder picks one representation per field from the static table alone and writes it out. It keeps
no dynamic table; its only state is the size update the next block must start with.
-/

namespace BrowsercoreHttp2

def hpackDefaultTableSize : Int := 4096

inductive EncodedHeader where
  | indexed (index : Nat)
  | literalIncremental (nameIndex : Nat) (name : Option String) (value : String)
  | literalNeverIndexed (nameIndex : Nat) (name : Option String) (value : String)
  | literalNoIndexing (nameIndex : Nat) (name : Option String) (value : String)
  deriving DecidableEq

def findStaticExactIndex (name value : String) : Option Nat :=
  (staticTable.findIdx? fun entry => entry.name = name ∧ entry.value = value).map (· + 1)

def findStaticNameIndex (name : String) : Option Nat :=
  (staticTable.findIdx? fun entry => entry.name = name).map (· + 1)

structure HpackEncoder where
  nextSizeUpdate : Option Int
  maxTableSize : Int
  useHuffman : Bool
  deriving DecidableEq

namespace HpackEncoder

def create (maxTableSize : Option Int) (useHuffman : Option Bool) : HpackEncoder :=
  let maxTableSize := maxTableSize.getD hpackDefaultTableSize
  { nextSizeUpdate := if maxTableSize ≠ hpackDefaultTableSize then some maxTableSize else none
    maxTableSize
    useHuffman := useHuffman.getD true }

def setMaxTableSize (encoder : HpackEncoder) (maxSize : Int) : HpackEncoder := { encoder with nextSizeUpdate := some maxSize }

/-- Decide which representation to use for a single header field. -/
def planHeader (field : HeaderField) : EncodedHeader :=
  let name := normalizeName field.name
  let value := field.value
  let nameIndex := findStaticNameIndex name
  let resolvedName := if nameIndex.isNone then some name else none
  if field.sensitive then .literalNeverIndexed (nameIndex.getD 0) resolvedName value
  else
    match findStaticExactIndex name value with
    | some exact => .indexed exact
    | none =>
        if field.indexing then .literalIncremental (nameIndex.getD 0) resolvedName value
        else .literalNoIndexing (nameIndex.getD 0) resolvedName value

def encodeString (encoder : HpackEncoder) (value : String) : Except HpackError Bytes :=
  if encoder.useHuffman then encodeStringHuffman value else encodeStringLiteral value

def emitIndexed (index : Nat) : Except HpackError Bytes := (encodeInteger index 7).map (setFlag 0x80)

/-- The literal forms: a flagged name index, the name when it is new, and the value. -/
def emitLiteral (encoder : HpackEncoder) (prefixBits : Nat) (flag : UInt8) (nameIndex : Nat) (name : Option String)
    (value : String) : Except HpackError Bytes := do
  let indexOctets ← (encodeInteger nameIndex prefixBits).map (setFlag flag)
  let nameOctets ← match name with
    | some name => if nameIndex = 0 then encoder.encodeString name else .ok []
    | none => .ok []
  let valueOctets ← encoder.encodeString value
  return indexOctets ++ nameOctets ++ valueOctets

def emitLiteralIncremental (encoder : HpackEncoder) := encoder.emitLiteral 6 0x40

def emitLiteralNoIndexing (encoder : HpackEncoder) := encoder.emitLiteral 4 0x00

def emitLiteralNeverIndexed (encoder : HpackEncoder) := encoder.emitLiteral 4 0x10

/-- Emit the wire octets for a planned header representation. -/
def emitHeader (encoder : HpackEncoder) : EncodedHeader → Except HpackError Bytes
  | .indexed index => emitIndexed index
  | .literalIncremental nameIndex name value => encoder.emitLiteralIncremental nameIndex name value
  | .literalNeverIndexed nameIndex name value => encoder.emitLiteralNeverIndexed nameIndex name value
  | .literalNoIndexing nameIndex name value => encoder.emitLiteralNoIndexing nameIndex name value

def encodeSizeUpdate (newLimit : Int) : Except HpackError Bytes := (encodeInteger newLimit 5).map (setFlag 0x20)

def emitHeaders (encoder : HpackEncoder) : List HeaderField → Except HpackError Bytes
  | [] => .ok []
  | field :: rest => do
      let octets ← encoder.emitHeader (planHeader field)
      return octets ++ (← encoder.emitHeaders rest)

/-- Encode a header block. The pending size update is spent once it is written, even when a field fails. -/
def encode (encoder : HpackEncoder) (headers : List HeaderField) : HpackEncoder × Except HpackError Bytes :=
  match encoder.nextSizeUpdate with
  | none => (encoder, encoder.emitHeaders headers)
  | some newLimit =>
      match encodeSizeUpdate newLimit with
      | .error e => (encoder, .error e)
      | .ok update => ({ encoder with nextSizeUpdate := none }, (encoder.emitHeaders headers).map (update ++ ·))

end HpackEncoder

end BrowsercoreHttp2
