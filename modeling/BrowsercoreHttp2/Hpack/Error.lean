import BrowsercoreHttp2.Javascript.Number

/-!
# HPACK errors

An `HpackError` carries a text. The model keeps what the text interpolates and renders it with `message`.
-/

namespace BrowsercoreHttp2

abbrev Bytes := List UInt8

/-- How a number is interpolated. Integers from `10^21` on, which JavaScript writes with an exponent, are written out here. -/
def JsNat.render : JsNat → String
  | .nan => "NaN"
  | .infinity => "Infinity"
  | .finite n => toString n

/-- The digits `Number.prototype.toString(16)` writes. -/
def hexString (n : Nat) : String := String.ofList (Nat.toDigits 16 n)

inductive HpackError where
  | integerEncode (value : Int)
  | integerFirstOctet
  | integerContinuation
  | huffmanEncodeByte
  | huffmanDecodeOctet
  | huffmanNoMatch
  | nonLatin1 (offset code : Nat)
  | stringLengthPrefix
  | stringTooLong (length : JsNat) (offset buffer : Nat)
  | indexedOutOfRange (index : JsNat)
  | nameIndexOutOfRange (index : JsNat)
  deriving DecidableEq

def HpackError.message : HpackError → String
  | .integerEncode value => "integer encode: value must be a non-negative integer, got " ++ toString value
  | .integerFirstOctet => "integer decode: buffer underflow reading first octet"
  | .integerContinuation => "integer decode: buffer underflow in continuation octets"
  | .huffmanEncodeByte => "huffman encode: invalid byte value"
  | .huffmanDecodeOctet => "huffman decode: buffer underflow reading octet"
  | .huffmanNoMatch => "huffman decode: no matching code"
  | .nonLatin1 offset code =>
      "string encode: non-latin1 character at offset " ++ toString offset ++ ": U+" ++ hexString code
  | .stringLengthPrefix => "string decode: buffer underflow reading length prefix"
  | .stringTooLong length offset buffer =>
      "string decode: length " ++ length.render ++ " exceeds buffer (offset " ++ toString offset ++ ", buffer " ++
        toString buffer ++ ")"
  | .indexedOutOfRange index => "indexed header: index " ++ index.render ++ " out of range"
  | .nameIndexOutOfRange index => "literal header: name index " ++ index.render ++ " out of range"

end BrowsercoreHttp2
