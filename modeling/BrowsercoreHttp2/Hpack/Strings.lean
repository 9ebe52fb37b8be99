import BrowsercoreHttp2.Hpack.HuffmanTable
import BrowsercoreHttp2.Hpack.Integer

/-!
# HPACK string literals

The string literals of RFC 7541 section 5.2 and their Huffman coding. The encoder keeps its bits in the
32-bit integer that JavaScript's shift operators work on, so `buffer` is a `BitVec 32` and `>>` is the
arithmetic shift. The decoder accumulates by multiplication instead and never holds more than 37 bits.
-/

namespace BrowsercoreHttp2

/-! ### Huffman encoding -/

/-- `a << n` and `a >> n` on 32-bit integers: the shift count is taken modulo 32. -/
def shiftLeft32 (a : BitVec 32) (n : Nat) : BitVec 32 := a <<< (n % 32)

def shiftRight32 (a : BitVec 32) (n : Nat) : BitVec 32 := a.sshiftRight (n % 32)

structure HuffmanWriter where
  buffer : BitVec 32
  bitsInBuffer : Nat
  out : Bytes
  deriving DecidableEq

namespace HuffmanWriter

def initial : HuffmanWriter := ⟨0, 0, []⟩

/-- Move whole octets from the buffer to the output. -/
def flush (w : HuffmanWriter) : HuffmanWriter :=
  if 8 ≤ w.bitsInBuffer then
    let bitsInBuffer := w.bitsInBuffer - 8
    flush ⟨w.buffer, bitsInBuffer, w.out ++ [(shiftRight32 w.buffer bitsInBuffer &&& 0xff).toNat.toUInt8]⟩
  else w
termination_by w.bitsInBuffer

def push (w : HuffmanWriter) (row : HuffmanRow) : HuffmanWriter :=
  flush ⟨shiftLeft32 w.buffer row.bits ||| BitVec.ofNat 32 row.code, w.bitsInBuffer + row.bits, w.out⟩

/-- Pad with one-bits up to the next octet boundary. -/
def finish (w : HuffmanWriter) : Bytes :=
  if 0 < w.bitsInBuffer then
    let padBits := 8 - w.bitsInBuffer
    let padding := shiftLeft32 1 padBits - 1
    w.out ++ [((shiftLeft32 w.buffer padBits ||| padding) &&& 0xff).toNat.toUInt8]
  else w.out

end HuffmanWriter

def huffmanEncodeFrom (w : HuffmanWriter) : Bytes → Except HpackError Bytes
  | [] => .ok w.finish
  | byte :: input =>
      match huffmanTable[byte.toNat]? with
      | none => .error .huffmanEncodeByte
      | some row => huffmanEncodeFrom (w.push row) input

def huffmanEncode (input : Bytes) : Except HpackError Bytes := huffmanEncodeFrom .initial input

/-! ### Huffman decoding -/

structure HuffmanReader where
  bitBuffer : Nat
  bitsAvailable : Nat
  position : Nat
  deriving DecidableEq

/-- Top up the bit buffer until it holds the longest code or the octets run out. -/
def HuffmanReader.refill (buf : Bytes) (stop : Nat) (r : HuffmanReader) : Except HpackError HuffmanReader :=
  if r.bitsAvailable < 30 ∧ r.position < stop then
    match buf[r.position]? with
    | none => .error .huffmanDecodeOctet
    | some octet => refill buf stop ⟨r.bitBuffer * 256 + octet.toNat, r.bitsAvailable + 8, r.position + 1⟩
  else .ok r
termination_by stop - r.position

/-- The first row whose code is on top of the buffer. -/
def HuffmanReader.match? (r : HuffmanReader) : Option HuffmanRow :=
  huffmanTable.find? fun row =>
    row.bits ≤ r.bitsAvailable && r.bitBuffer / 2 ^ (r.bitsAvailable - row.bits) % 2 ^ row.bits == row.code

def HuffmanReader.consume (r : HuffmanReader) (row : HuffmanRow) : HuffmanReader :=
  let bitsAvailable := r.bitsAvailable - row.bits
  ⟨if 0 < bitsAvailable then r.bitBuffer % 2 ^ bitsAvailable else 0, bitsAvailable, r.position⟩

/-- Once the octets are consumed, what remains may be padding: all ones. -/
def HuffmanReader.atPadding (stop : Nat) (r : HuffmanReader) : Bool :=
  stop ≤ r.position &&
    let mod := if 0 < r.bitsAvailable then 2 ^ r.bitsAvailable else 1
    r.bitBuffer % mod == mod - 1

/-- What is left to read, in bits. -/
def HuffmanReader.remaining (stop : Nat) (r : HuffmanReader) : Nat := 8 * (stop - r.position) + r.bitsAvailable

theorem HuffmanReader.refill_remaining {buf : Bytes} {stop : Nat} {r r' : HuffmanReader}
    (h : r.refill buf stop = .ok r') : r'.remaining stop = r.remaining stop := by
  fun_induction HuffmanReader.refill buf stop r with
  | case1 => simp at h
  | case2 r hlt octet hoctet ih =>
      rw [ih h]
      simp only [HuffmanReader.remaining]
      omega
  | case3 =>
      simp only [Except.ok.injEq] at h
      rw [h]

theorem HuffmanReader.consume_remaining {r : HuffmanReader} {row : HuffmanRow} (stop : Nat) (h : r.match? = some row) :
    (r.consume row).remaining stop + row.bits = r.remaining stop ∧ 5 ≤ row.bits := by
  have hmem := List.mem_of_find?_eq_some h
  have hfound := List.find?_some h
  simp only [Bool.and_eq_true, decide_eq_true_eq] at hfound
  refine ⟨?_, (huffmanTable_bounds row hmem).1⟩
  simp only [HuffmanReader.consume, HuffmanReader.remaining]
  omega

def huffmanDecodeFrom (buf : Bytes) (stop : Nat) (r : HuffmanReader) (chars : List Nat) : Except HpackError (List Nat) :=
  if r.position < stop ∨ 0 < r.bitsAvailable then
    match _hrefill : r.refill buf stop with
    | .error e => .error e
    | .ok filled =>
        match _hmatch : filled.match? with
        | none => .error .huffmanNoMatch
        | some row =>
            let next := filled.consume row
            if next.atPadding stop then .ok (chars ++ [row.symbol])
            else huffmanDecodeFrom buf stop next (chars ++ [row.symbol])
  else .ok chars
termination_by r.remaining stop
decreasing_by
  have hconsume := HuffmanReader.consume_remaining stop _hmatch
  rw [HuffmanReader.refill_remaining _hrefill] at hconsume
  omega

def decodeLatin1 (bytes : List Nat) : String := String.ofList (bytes.map Char.ofNat)

structure DecodedHuffman where
  value : String
  nextOffset : Nat
  deriving DecidableEq

def huffmanDecode (buf : Bytes) (offset length : Nat) : Except HpackError DecodedHuffman :=
  match huffmanDecodeFrom buf (offset + length) ⟨0, 0, offset⟩ [] with
  | .error e => .error e
  | .ok chars => .ok ⟨decodeLatin1 chars, offset + length⟩

/-! ### Length-prefixed strings -/

def encodeLatin1From (offset : Nat) : List Char → Except HpackError Bytes
  | [] => .ok []
  | c :: cs =>
      if 0xff < c.toNat then .error (.nonLatin1 offset c.toNat)
      else match encodeLatin1From (offset + 1) cs with
        | .error e => .error e
        | .ok out => .ok (c.toNat.toUInt8 :: out)

def encodeLatin1 (s : String) : Except HpackError Bytes := encodeLatin1From 0 s.toList

/-- `buf[offset]` for an offset that may have become `NaN`. -/
def octetAt (buf : Bytes) : JsNat → Option UInt8
  | .finite offset => buf[offset]?
  | _ => none

/-- `start + length`. The sum is only compared with a buffer's length, and one that would be rounded is
past every buffer. -/
def JsNat.past (start : Nat) : JsNat → JsNat
  | .finite n => .finite (start + n)
  | length => length

structure DecodedString where
  value : String
  nextOffset : JsNat
  deriving DecidableEq

/-- `decodeString` at an offset inside the buffer. -/
def decodeStringAt (buf : Bytes) (offset : Nat) (flagOctet : UInt8) : Except HpackError DecodedString :=
  let huffmanFlag := flagOctet.toNat &&& 0x80 ≠ 0
  match decodeInteger buf offset 7 with
  | .error e => .error e
  | .ok lengthResult =>
      let length := lengthResult.value
      let dataStart := lengthResult.nextOffset
      let dataEnd := length.past dataStart
      if JsNat.lt (.finite buf.length) dataEnd then .error (.stringTooLong length dataStart buf.length)
      else
        match length with
        | .finite n =>
            if huffmanFlag then
              match huffmanDecode buf dataStart n with
              | .error e => .error e
              | .ok huffResult => .ok ⟨huffResult.value, dataEnd⟩
            else .ok ⟨decodeLatin1 (((buf.drop dataStart).take n).map UInt8.toNat), dataEnd⟩
        -- A `NaN` length passes the bounds check, and then neither `subarray` nor the Huffman loop reads an octet.
        | _ => .ok ⟨"", dataEnd⟩

def decodeString (buf : Bytes) (offset : JsNat) : Except HpackError DecodedString :=
  match offset, octetAt buf offset with
  | .finite offset, some flagOctet => decodeStringAt buf offset flagOctet
  | _, _ => .error .stringLengthPrefix

/-- Set a flag in the first octet of an encoded integer. -/
def setFlag (flag : UInt8) : Bytes → Bytes
  | [] => []
  | first :: rest => (first ||| flag) :: rest

def encodeStringHuffman (value : String) : Except HpackError Bytes := do
  let raw ← encodeLatin1 value
  let encoded ← huffmanEncode raw
  let lengthOctets ← encodeInteger encoded.length 7
  return setFlag 0x80 lengthOctets ++ encoded

def encodeStringLiteral (value : String) : Except HpackError Bytes := do
  let raw ← encodeLatin1 value
  let lengthOctets ← encodeInteger raw.length 7
  return lengthOctets ++ raw

/-- Lower-casing of the letters whose lower-case form is Latin-1. The others go to code points outside
Latin-1 whatever their case, and no encoding of those succeeds. -/
def toLowerCaseChar (c : Char) : Char :=
  if 0x41 ≤ c.toNat ∧ c.toNat ≤ 0x5A then Char.ofNat (c.toNat + 0x20)
  else if 0xC0 ≤ c.toNat ∧ c.toNat ≤ 0xDE ∧ c.toNat ≠ 0xD7 then Char.ofNat (c.toNat + 0x20)
  else if c.toNat = 0x178 then Char.ofNat 0xFF
  else if c.toNat = 0x1E9E then Char.ofNat 0xDF
  else if c.toNat = 0x212A then Char.ofNat 0x6B
  else if c.toNat = 0x212B then Char.ofNat 0xE5
  else c

def normalizeName (name : String) : String := String.ofList (name.toList.map toLowerCaseChar)

end BrowsercoreHttp2
