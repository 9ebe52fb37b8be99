import Mathlib.Data.List.Find
import BrowsercoreHttp2.Hpack.Strings

/-!
# The Huffman round trip

On paper the encoder writes the code words of its octets one after the other and pads with ones. The
decoder undoes that. The encoder itself keeps pending bits and the next code word in 32 bits, of which
the arithmetic shift repeats the top one, so what it writes is the paper encoding exactly as long as the
pending bits pushed beyond the top are all alike.
-/

namespace BrowsercoreHttp2

/-! ### Code words -/

/-- The row of an octet. -/
def octetRow (octet : UInt8) : HuffmanRow :=
  huffmanTable.get ⟨octet.toNat, by
    have hlen : huffmanTable.length = 257 := by decide +kernel
    have := octet.toNat_lt
    omega⟩

theorem octetRow_get (octet : UInt8) : huffmanTable[octet.toNat]? = some (octetRow octet) :=
  List.getElem?_eq_getElem _

theorem octetRow_mem (octet : UInt8) : octetRow octet ∈ huffmanTable := List.get_mem _ _

@[simp] theorem octetRow_symbol (octet : UInt8) : (octetRow octet).symbol = octet.toNat :=
  HuffmanRow.symbol_of_getElem? (octetRow_get octet)

theorem octetRow_bits_le (octet : UInt8) : (octetRow octet).bits ≤ 30 := (huffmanTable_bounds _ (octetRow_mem octet)).2.1

/-- The code words of an octet string, one after the other. -/
def huffmanBits (s : Bytes) : List Bool := huffmanCode.write (s.map octetRow)

@[simp] theorem huffmanBits_nil : huffmanBits [] = [] := rfl

@[simp] theorem huffmanBits_cons (octet : UInt8) (s : Bytes) :
    huffmanBits (octet :: s) = (octetRow octet).word ++ huffmanBits s := rfl

/-! ### Encoding -/

/-- The low `n` bits of a 32-bit integer whose sign is repeated above it. -/
def signedBits (n : Nat) (b : BitVec 32) : List Bool := bitsOf n (b.signExtend 64).toNat

theorem testBit_signExtend (b : BitVec 32) {i : Nat} (hi : i < 64) :
    (b.signExtend 64).toNat.testBit i = if i < 32 then b.getLsbD i else b.msb := by
  rw [BitVec.testBit_toNat, BitVec.getLsbD_signExtend]
  simp [hi]

theorem octet_testBit (x : BitVec 32) {i : Nat} (hi : i < 8) : (x &&& 0xff).toNat.toUInt8.toNat.testBit i = x.getLsbD i := by
  have hmask : ∀ j : Fin 8, (0xff : BitVec 32).getLsbD j = true := by decide
  rw [show (x &&& 0xff).toNat.toUInt8.toNat = (x &&& 0xff).toNat % 2 ^ 8 from rfl, Nat.testBit_mod_two_pow,
    BitVec.testBit_toNat, BitVec.getLsbD_and, hmask ⟨i, hi⟩]
  simp [hi]

/-- An octet taken from the buffer by `>>` and a mask. -/
theorem bitsOf_shiftRight32 (b : BitVec 32) {n : Nat} (hn : n < 32) :
    bitsOf 8 (shiftRight32 b n &&& 0xff).toNat.toUInt8.toNat = bitsOf 8 ((b.signExtend 64).toNat >>> n) := by
  apply bitsOf_congr
  intro i hi
  rw [octet_testBit _ hi, shiftRight32, Nat.mod_eq_of_lt hn, BitVec.getLsbD_sshiftRight, Nat.testBit_shiftRight,
    testBit_signExtend b (by omega)]
  simp [show i < 32 by omega]

namespace HuffmanWriter

/-- Flushing moves whole octets out of the sign-extended buffer and leaves the buffer itself alone. -/
theorem flush_spec (w : HuffmanWriter) (hn : w.bitsInBuffer < 40) :
    w.flush.buffer = w.buffer ∧ w.flush.bitsInBuffer = w.bitsInBuffer % 8 ∧
      ∃ emitted, octetBits w.flush.out = octetBits w.out ++ emitted ∧
        signedBits w.bitsInBuffer w.buffer = emitted ++ signedBits (w.bitsInBuffer % 8) w.buffer := by
  fun_induction flush w with
  | case1 w hfull bitsInBuffer ih =>
      have hsmall : bitsInBuffer < 32 := by omega
      obtain ⟨hbuffer, hcount, emitted, hout, hbits⟩ := ih (by dsimp only; omega)
      dsimp only at hbuffer hcount hout hbits
      have hmod : bitsInBuffer % 8 = w.bitsInBuffer % 8 := by omega
      refine ⟨hbuffer, hcount.trans hmod, bitsOf 8 ((w.buffer.signExtend 64).toNat >>> bitsInBuffer) ++ emitted, ?_, ?_⟩
      · rw [hout, octetBits_append, octetBits_cons, octetBits_nil, List.append_nil, bitsOf_shiftRight32 _ hsmall,
          List.append_assoc]
      · rw [hmod] at hbits
        rw [List.append_assoc, ← hbits, signedBits, signedBits, ← bitsOf_add]
        congr 1
        omega
  | case2 w hfew =>
      rw [Nat.mod_eq_of_lt (by omega)]
      exact ⟨rfl, rfl, [], (List.append_nil _).symm, rfl⟩

/-- The bits not yet written out. -/
def pending (w : HuffmanWriter) : List Bool := bitsOf w.bitsInBuffer w.buffer.toNat

@[simp] theorem pending_length (w : HuffmanWriter) : w.pending.length = w.bitsInBuffer := bitsOf_length _ _

/-- The buffer after a code word is shifted in. -/
def shiftedIn (w : HuffmanWriter) (row : HuffmanRow) : BitVec 32 :=
  shiftLeft32 w.buffer row.bits ||| BitVec.ofNat 32 row.code

/-- The number the pending bits and the next code word spell. -/
def spelled (w : HuffmanWriter) (row : HuffmanRow) : Nat := w.buffer.toNat * 2 ^ row.bits + row.code

theorem spelled_testBit (w : HuffmanWriter) {row : HuffmanRow} (hrow : row ∈ huffmanTable) (i : Nat) :
    (w.spelled row).testBit i = if i < row.bits then row.code.testBit i else w.buffer.toNat.testBit (i - row.bits) := by
  rw [spelled, Nat.mul_comm, Nat.testBit_two_pow_mul_add _ (huffmanTable_bounds row hrow).2.2]

theorem pending_append_word (w : HuffmanWriter) {row : HuffmanRow} (hrow : row ∈ huffmanTable) :
    w.pending ++ row.word = bitsOf (w.bitsInBuffer + row.bits) (w.spelled row) :=
  bitsOf_append _ _ _ _ (huffmanTable_bounds row hrow).2.2

theorem shiftedIn_getLsbD (w : HuffmanWriter) {row : HuffmanRow} (hrow : row ∈ huffmanTable) {i : Nat} (hi : i < 32) :
    (w.shiftedIn row).getLsbD i = (w.spelled row).testBit i := by
  obtain ⟨-, hbits, hcode⟩ := huffmanTable_bounds row hrow
  rw [spelled_testBit w hrow, shiftedIn, shiftLeft32, Nat.mod_eq_of_lt (by omega), BitVec.getLsbD_or,
    BitVec.getLsbD_shiftLeft, BitVec.getLsbD_ofNat]
  split
  · rename_i hlow
    simp [hi, hlow]
  · rename_i hhigh
    have hzero : row.code.testBit i = false :=
      Nat.testBit_lt_two_pow (hcode.trans_le (Nat.pow_le_pow_right (by omega) (by omega)))
    simp [hi, hhigh, hzero, BitVec.testBit_toNat]

/-- What does not fit is right exactly when the pending bits from bit 31 upwards are all alike. -/
theorem signedBits_shiftedIn_iff (w : HuffmanWriter) (hw : w.bitsInBuffer < 8) {row : HuffmanRow} (hrow : row ∈ huffmanTable) :
    signedBits (w.bitsInBuffer + row.bits) (w.shiftedIn row) = w.pending ++ row.word ↔
      allAlike (w.pending.take (w.bitsInBuffer + row.bits - 31)) = true := by
  obtain ⟨-, hbits, -⟩ := huffmanTable_bounds row hrow
  have hsign : (w.shiftedIn row).msb = (w.spelled row).testBit 31 := by
    rw [BitVec.msb_eq_getLsbD_last, shiftedIn_getLsbD w hrow (by omega)]
  have htop : w.pending.take (w.bitsInBuffer + row.bits - 31) =
      bitsOf (w.bitsInBuffer + row.bits - 31) (w.spelled row >>> 31) := by
    have hsplit : (w.pending ++ row.word).take (w.bitsInBuffer + row.bits - 31) = w.pending.take (w.bitsInBuffer + row.bits - 31) :=
      List.take_append_of_le_length (by rw [pending_length]; omega)
    rw [← hsplit, pending_append_word w hrow, bitsOf_take _ (by omega)]
    by_cases hlong : 31 ≤ w.bitsInBuffer + row.bits
    · rw [show w.bitsInBuffer + row.bits - (w.bitsInBuffer + row.bits - 31) = 31 by omega]
    · rw [show w.bitsInBuffer + row.bits - 31 = 0 by omega]
      rfl
  rw [htop, allAlike_bitsOf, pending_append_word w hrow, signedBits, bitsOf_eq_iff]
  simp only [Nat.testBit_shiftRight, Nat.add_zero]
  constructor
  · intro h i hi
    have hbit := h (31 + i) (by omega)
    rw [testBit_signExtend _ (by omega)] at hbit
    split at hbit
    · rw [show i = 0 by omega]
    · rw [← hbit, hsign]
  · intro h i hi
    rw [testBit_signExtend _ (by omega)]
    split
    · rename_i hlow
      exact shiftedIn_getLsbD w hrow hlow
    · rename_i hhigh
      rw [hsign, ← h (i - 31) (by omega)]
      congr 1
      omega

/-- The octets an encoding of a code word completes, and the bits it leaves. -/
theorem push_spec (w : HuffmanWriter) (hw : w.bitsInBuffer < 8) {row : HuffmanRow} (hrow : row ∈ huffmanTable) :
    (w.push row).bitsInBuffer < 8 ∧
      (w.push row).pending = (w.pending ++ row.word).drop (8 * ((w.bitsInBuffer + row.bits) / 8)) ∧
      ∃ emitted, octetBits (w.push row).out = octetBits w.out ++ emitted ∧
        emitted.length = 8 * ((w.bitsInBuffer + row.bits) / 8) ∧
        (emitted ++ (w.push row).pending = w.pending ++ row.word ↔
          allAlike (w.pending.take (w.bitsInBuffer + row.bits - 31)) = true) := by
  obtain ⟨-, hbits, -⟩ := huffmanTable_bounds row hrow
  let shifted : HuffmanWriter := ⟨w.shiftedIn row, w.bitsInBuffer + row.bits, w.out⟩
  have hpush : w.push row = shifted.flush := rfl
  obtain ⟨hbuffer, hcount, emitted, hout, hemitted⟩ := shifted.flush_spec (show w.bitsInBuffer + row.bits < 40 by omega)
  have hfew : (w.bitsInBuffer + row.bits) % 8 < 8 := Nat.mod_lt _ (by decide)
  have hsame : ∀ i < (w.bitsInBuffer + row.bits) % 8, (w.shiftedIn row).getLsbD i = (w.spelled row).testBit i :=
    fun i hi => shiftedIn_getLsbD w hrow (by omega)
  have hpending : shifted.flush.pending = bitsOf ((w.bitsInBuffer + row.bits) % 8) (w.spelled row) := by
    rw [pending, hcount, hbuffer]
    exact bitsOf_congr hsame
  have hsigned : signedBits ((w.bitsInBuffer + row.bits) % 8) (w.shiftedIn row) = shifted.flush.pending := by
    rw [hpending]
    refine bitsOf_congr fun i hi => ?_
    rw [testBit_signExtend _ (by omega), if_pos (by omega), hsame i hi]
  rw [hpush]
  have hlen : emitted.length = 8 * ((w.bitsInBuffer + row.bits) / 8) := by
    have htotal := congrArg List.length hemitted
    simp only [shifted, signedBits, bitsOf_length, List.length_append] at htotal
    omega
  refine ⟨hcount.trans_lt hfew, ?_, emitted, hout, hlen, ?_⟩
  · rw [pending_append_word w hrow, bitsOf_drop _ (by omega), hpending]
    congr 1
    omega
  · rw [← hsigned, ← signedBits_shiftedIn_iff w hw hrow]
    exact Eq.congr_left hemitted.symm

/-- Padding fills the last octet with ones. -/
theorem finish_spec (w : HuffmanWriter) (hw : w.bitsInBuffer < 8) :
    ∃ k < 8, octetBits w.finish = octetBits w.out ++ w.pending ++ List.replicate k true := by
  rw [finish]
  split
  · rename_i hpos
    refine ⟨8 - w.bitsInBuffer, by omega, ?_⟩
    have hpad : ∀ k j : Fin 8, (shiftLeft32 1 k - 1).getLsbD j = decide (j < k) := by decide
    rw [octetBits_append, octetBits_cons, octetBits_nil, List.append_nil, List.append_assoc, ← bitsOf_ones, pending,
      bitsOf_append _ _ _ _ (Nat.sub_lt (Nat.two_pow_pos _) Nat.one_pos), show w.bitsInBuffer + (8 - w.bitsInBuffer) = 8 by omega]
    refine congrArg (octetBits w.out ++ ·) (bitsOf_congr fun i hi => ?_)
    rw [octet_testBit _ hi, BitVec.getLsbD_or, hpad ⟨8 - w.bitsInBuffer, by omega⟩ ⟨i, hi⟩, shiftLeft32,
      Nat.mod_eq_of_lt (by omega), BitVec.getLsbD_shiftLeft, Nat.mul_comm,
      Nat.testBit_two_pow_mul_add _ (Nat.sub_lt (Nat.two_pow_pos _) Nat.one_pos), Nat.testBit_two_pow_sub_one]
    by_cases hlow : i < 8 - w.bitsInBuffer
    · simp [hlow]
    · simp [hlow, show i < 32 by omega, BitVec.testBit_toNat]
  · rename_i hnone
    refine ⟨0, by decide, ?_⟩
    rw [pending, show w.bitsInBuffer = 0 by omega]
    simp [bitsOf]

end HuffmanWriter

/-- The bits an octet leaves pending. -/
def carry (pending : List Bool) (octet : UInt8) : List Bool :=
  (pending ++ (octetRow octet).word).drop (8 * ((pending.length + (octetRow octet).bits) / 8))

/-- Whether each code word fits the 32-bit buffer behind the bits still pending: the bits from bit 31
upwards are all alike. -/
def fitsBuffer (pending : List Bool) : Bytes → Bool
  | [] => true
  | octet :: s =>
      allAlike (pending.take (pending.length + (octetRow octet).bits - 31)) && fitsBuffer (carry pending octet) s

/-- What encoding writes, bit by bit: the code words as long as each fits, and never again after one did not. -/
theorem huffmanEncodeFrom_spec (w : HuffmanWriter) (hw : w.bitsInBuffer < 8) (s : Bytes) :
    ∃ out tail, huffmanEncodeFrom w s = .ok out ∧ octetBits out = octetBits w.out ++ tail ∧
      tail.length ≤ w.bitsInBuffer + 30 * s.length + 7 ∧
      match fitsBuffer w.pending s with
      | true => ∃ k < 8, tail = w.pending ++ huffmanBits s ++ List.replicate k true
      | false => ¬ w.pending ++ huffmanBits s <+: tail := by
  induction s generalizing w with
  | nil =>
      obtain ⟨k, hk, hfinish⟩ := w.finish_spec hw
      refine ⟨w.finish, w.pending ++ List.replicate k true, rfl, by rw [hfinish, List.append_assoc], ?_, k, hk, ?_⟩
      · rw [List.length_append, HuffmanWriter.pending_length, List.length_replicate, List.length_nil]
        omega
      · rw [huffmanBits_nil, List.append_nil]
  | cons octet s ih =>
      obtain ⟨hnext, hpending, emitted, hemitted, hlen, hiff⟩ := w.push_spec hw (octetRow_mem octet)
      obtain ⟨out, tail, hout, hbits, hshort, htail⟩ := ih (w.push (octetRow octet)) hnext
      refine ⟨out, emitted ++ tail, ?_, by rw [hbits, hemitted, List.append_assoc], ?_, ?_⟩
      · rw [huffmanEncodeFrom, octetRow_get]
        exact hout
      · have hleft := congrArg List.length hpending
        have hword := octetRow_bits_le octet
        rw [HuffmanWriter.pending_length, List.length_drop, List.length_append, HuffmanWriter.pending_length,
          HuffmanRow.word_length] at hleft
        rw [List.length_append, hlen, List.length_cons]
        omega
      · have hcarry : (w.push (octetRow octet)).pending = carry w.pending octet := by
          rw [hpending, carry, HuffmanWriter.pending_length]
        rw [fitsBuffer, huffmanBits_cons, HuffmanWriter.pending_length, ← hcarry]
        cases halike : allAlike (w.pending.take (w.bitsInBuffer + (octetRow octet).bits - 31)) with
        | false =>
            rw [halike] at hiff
            intro hstarts
            have hshort : emitted.length ≤ (w.pending ++ (octetRow octet).word).length := by
              rw [hlen, List.length_append, HuffmanWriter.pending_length, HuffmanRow.word_length]
              omega
            have hwritten : emitted <+: w.pending ++ (octetRow octet).word := by
              refine List.prefix_of_prefix_length_le (List.prefix_append emitted tail) ?_ hshort
              exact ((List.prefix_append _ (huffmanBits s)).trans (List.append_assoc _ _ _ ▸ List.prefix_rfl)).trans hstarts
            refine absurd (hiff.mp ?_) Bool.false_ne_true
            rw [hpending, ← hlen, List.prefix_iff_eq_append.mp hwritten]
        | true =>
            have hright := hiff.mpr halike
            rw [Bool.true_and, ← List.append_assoc, ← hright, List.append_assoc]
            cases hfits : fitsBuffer (w.push (octetRow octet)).pending s with
            | false =>
                rw [hfits] at htail
                intro hstarts
                exact htail ((List.prefix_append_right_inj emitted).mp hstarts)
            | true =>
                rw [hfits] at htail
                obtain ⟨k, hk, rfl⟩ := htail
                exact ⟨k, hk, by simp only [List.append_assoc]⟩

/-! ### Decoding -/

theorem word_ones {row : HuffmanRow} (hrow : row ∈ huffmanTable) (hones : ∀ b ∈ row.word, b = true) :
    row.symbol = 256 ∧ row.bits = 30 := by
  have htable : ∀ row ∈ huffmanTable, row.code = 2 ^ row.bits - 1 → row.symbol = 256 ∧ row.bits = 30 := by decide +kernel
  apply htable row hrow
  apply bitsOf_injective (huffmanTable_bounds row hrow).2.2 (Nat.sub_lt (Nat.two_pow_pos _) Nat.one_pos)
  rw [bitsOf_ones]
  exact List.eq_replicate_iff.mpr ⟨bitsOf_length _ _, hones⟩

theorem octetRow_word_ones (octet : UInt8) : ¬ ∀ b ∈ (octetRow octet).word, b = true := by
  intro hones
  have hsymbol := (word_ones (octetRow_mem octet) hones).1
  rw [octetRow_symbol] at hsymbol
  exact absurd hsymbol octet.toNat_lt.ne

namespace HuffmanReader

variable {buf : Bytes} {stop : Nat}

/-- What the reader has still to read. -/
def bits (buf : Bytes) (stop : Nat) (r : HuffmanReader) : List Bool :=
  bitsOf r.bitsAvailable r.bitBuffer ++ octetBits ((buf.take stop).drop r.position)

theorem bits_of_drained {r : HuffmanReader} (h : stop ≤ r.position) : r.bits buf stop = bitsOf r.bitsAvailable r.bitBuffer := by
  have hnone : (buf.take stop).drop r.position = [] :=
    List.drop_eq_nil_of_le ((List.length_take_le _ _).trans h)
  rw [bits, hnone, octetBits_nil, List.append_nil]

theorem drained_of_bits_short (hstop : stop ≤ buf.length) {r : HuffmanReader} (h : (r.bits buf stop).length < 8) :
    stop ≤ r.position := by
  rw [bits, List.length_append, octetBits_length, List.length_drop, List.length_take_of_le hstop] at h
  omega

theorem bits_eq_nil_iff (hstop : stop ≤ buf.length) (r : HuffmanReader) :
    r.bits buf stop = [] ↔ ¬ (r.position < stop ∨ 0 < r.bitsAvailable) := by
  rw [← List.length_eq_zero_iff, bits, List.length_append, octetBits_length, List.length_drop, List.length_take_of_le hstop,
    bitsOf_length]
  omega

/-- Refilling moves bits into the buffer until it holds the longest code word or all there is. -/
theorem refill_spec (hstop : stop ≤ buf.length) (r : HuffmanReader) :
    ∃ filled, r.refill buf stop = .ok filled ∧ filled.bits buf stop = r.bits buf stop ∧
      (30 ≤ filled.bitsAvailable ∨ stop ≤ filled.position) := by
  fun_induction HuffmanReader.refill buf stop r with
  | case1 r hmore hnone =>
      have := List.getElem?_eq_none_iff.mp hnone
      omega
  | case2 r hmore octet hoctet ih =>
      obtain ⟨filled, hfilled, hbits, hfull⟩ := ih
      refine ⟨filled, hfilled, hbits.trans ?_, hfull⟩
      have hhead : (buf.take stop).drop r.position = octet :: (buf.take stop).drop (r.position + 1) := by
        have hlt : r.position < (buf.take stop).length := by
          rw [List.length_take_of_le hstop]
          exact hmore.2
        rw [List.drop_eq_getElem_cons hlt, List.getElem_take, (List.getElem?_eq_some_iff.mp hoctet).2]
      rw [bits, bits, hhead, octetBits_cons, ← List.append_assoc, bitsOf_append _ _ _ _ octet.toNat_lt]
      rfl
  | case3 r hdone => exact ⟨r, rfl, rfl, by omega⟩

/-- A full buffer is searched for the row that starts the bits. -/
theorem match?_eq_read {r : HuffmanReader} (hfull : 30 ≤ r.bitsAvailable ∨ stop ≤ r.position) :
    r.match? = huffmanCode.read (r.bits buf stop) := by
  have hrow : ∀ row ∈ huffmanTable,
      (decide (row.bits ≤ r.bitsAvailable) && r.bitBuffer / 2 ^ (r.bitsAvailable - row.bits) % 2 ^ row.bits == row.code) =
        row.word.isPrefixOf (r.bits buf stop) := by
    intro row hmem
    obtain ⟨-, hbits, hcode⟩ := huffmanTable_bounds row hmem
    rw [Bool.eq_iff_iff, List.isPrefixOf_iff_prefix, Bool.and_eq_true, decide_eq_true_eq, beq_iff_eq]
    by_cases hle : row.bits ≤ r.bitsAvailable
    · have htop : (r.bits buf stop).take row.bits = bitsOf row.bits (r.bitBuffer >>> (r.bitsAvailable - row.bits)) := by
        rw [bits, List.take_append_of_le_length (hle.trans_eq (bitsOf_length _ _).symm), bitsOf_take _ hle]
      rw [List.prefix_iff_eq_take, HuffmanRow.word_length, htop, HuffmanRow.word, Nat.shiftRight_eq_div_pow, ← bitsOf_mod,
        Nat.mod_eq_of_lt hcode]
      nth_rewrite 2 [← bitsOf_mod]
      constructor
      · rintro ⟨-, hsame⟩
        rw [hsame]
      · intro hsame
        exact ⟨hle, (bitsOf_injective hcode (Nat.mod_lt _ (Nat.two_pow_pos _)) hsame).symm⟩
    · have hdrained : stop ≤ r.position := by omega
      rw [bits_of_drained hdrained]
      constructor
      · exact fun h => absurd h.1 hle
      · intro hstarts
        have hlen := hstarts.length_le
        rw [HuffmanRow.word_length, bitsOf_length] at hlen
        exact absurd hlen hle
  exact List.find?_congr hrow

theorem consume_bits {r : HuffmanReader} {row : HuffmanRow} (h : r.match? = some row) :
    (r.consume row).bits buf stop = (r.bits buf stop).drop row.bits := by
  have hfound := List.find?_some h
  simp only [Bool.and_eq_true, decide_eq_true_eq] at hfound
  rw [bits, bits, List.drop_append_of_le_length (hfound.1.trans_eq (bitsOf_length _ _).symm), bitsOf_drop _ hfound.1]
  refine congrArg (· ++ octetBits ((buf.take stop).drop r.position)) ?_
  simp only [consume]
  split
  · exact bitsOf_mod _ _
  · rw [show r.bitsAvailable - row.bits = 0 by omega]
    rfl

theorem atPadding_iff (buf : Bytes) {r : HuffmanReader} :
    r.atPadding stop = true ↔ stop ≤ r.position ∧ ∀ b ∈ r.bits buf stop, b = true := by
  rw [atPadding, Bool.and_eq_true, decide_eq_true_eq, beq_iff_eq]
  refine and_congr_right fun hdrained => ?_
  have hmod : (if 0 < r.bitsAvailable then 2 ^ r.bitsAvailable else 1) = 2 ^ r.bitsAvailable := by
    split
    · rfl
    · rw [show r.bitsAvailable = 0 by omega, Nat.pow_zero]
  have hones : (∀ b ∈ bitsOf r.bitsAvailable r.bitBuffer, b = true) ↔
      bitsOf r.bitsAvailable r.bitBuffer = bitsOf r.bitsAvailable (2 ^ r.bitsAvailable - 1) := by
    rw [bitsOf_ones, List.eq_replicate_iff, bitsOf_length, eq_self_iff_true, true_and]
  rw [hmod, bits_of_drained hdrained, hones]
  constructor
  · intro hrest
    rw [← hrest, bitsOf_mod]
  · intro hbits
    rw [← bitsOf_mod _ r.bitBuffer] at hbits
    exact bitsOf_injective (Nat.mod_lt _ (Nat.two_pow_pos _)) (Nat.sub_lt (Nat.two_pow_pos _) Nat.one_pos) hbits

end HuffmanReader

/-- One round of the decoder. -/
theorem huffmanDecodeFrom_step {buf : Bytes} {stop : Nat} {r filled : HuffmanReader} {row : HuffmanRow}
    (hmore : r.position < stop ∨ 0 < r.bitsAvailable) (hfilled : r.refill buf stop = .ok filled)
    (hmatch : filled.match? = some row) (chars : List Nat) :
    huffmanDecodeFrom buf stop r chars =
      if (filled.consume row).atPadding stop then .ok (chars ++ [row.symbol])
      else huffmanDecodeFrom buf stop (filled.consume row) (chars ++ [row.symbol]) := by
  rw [huffmanDecodeFrom, if_pos hmore]
  split
  · rename_i e herror
    simp [hfilled] at herror
  · rename_i filled' hfilled'
    obtain rfl : filled = filled' := Except.ok.inj (hfilled.symm.trans hfilled')
    split
    · rename_i hnone
      simp [hmatch] at hnone
    · rename_i row' hmatch'
      obtain rfl : row = row' := Option.some.inj (hmatch.symm.trans hmatch')
      rfl

/-- Decoding reads back the octets whose code words are written, with less than an octet of padding. -/
theorem huffmanDecodeFrom_huffmanBits {buf : Bytes} {stop : Nat} (hstop : stop ≤ buf.length) (r : HuffmanReader) (s : Bytes)
    (chars : List Nat) {k : Nat} (hk : k < 8) (hbits : r.bits buf stop = huffmanBits s ++ List.replicate k true)
    (hs : s = [] → k = 0) : huffmanDecodeFrom buf stop r chars = .ok (chars ++ s.map UInt8.toNat) := by
  induction s generalizing r chars with
  | nil =>
      rw [hs rfl] at hbits
      rw [huffmanDecodeFrom, if_neg ((HuffmanReader.bits_eq_nil_iff hstop r).mp hbits), List.map_nil, List.append_nil]
  | cons octet s ih =>
      have hword : r.bits buf stop = (octetRow octet).word ++ (huffmanBits s ++ List.replicate k true) := by
        rw [hbits, huffmanBits_cons, List.append_assoc]
      have hmore : r.position < stop ∨ 0 < r.bitsAvailable := by
        by_contra hnone
        rw [(HuffmanReader.bits_eq_nil_iff hstop r).mpr hnone] at hword
        exact huffmanCode.ne_nil _ (octetRow_mem octet) (List.append_eq_nil_iff.mp hword.symm).1
      obtain ⟨filled, hfilled, hsame, hfull⟩ := HuffmanReader.refill_spec hstop r
      have hmatch : filled.match? = some (octetRow octet) := by
        rw [HuffmanReader.match?_eq_read hfull, hsame, hword]
        exact huffmanCode.read_write_cons (octetRow_mem octet) _
      have hnext : (filled.consume (octetRow octet)).bits buf stop = huffmanBits s ++ List.replicate k true := by
        rw [HuffmanReader.consume_bits hmatch, hsame, hword, List.drop_left' (HuffmanRow.word_length _)]
      have hstep := huffmanDecodeFrom_step hmore hfilled hmatch chars
      rw [hstep, octetRow_symbol]
      cases s with
      | nil =>
          have hlast : (filled.consume (octetRow octet)).atPadding stop = true := by
            have hones : (filled.consume (octetRow octet)).bits buf stop = List.replicate k true := hnext
            refine (HuffmanReader.atPadding_iff buf).mpr ⟨HuffmanReader.drained_of_bits_short hstop ?_, fun b hb => ?_⟩
            · rw [hones, List.length_replicate]
              exact hk
            · rw [hones] at hb
              exact List.eq_of_mem_replicate hb
          rw [if_pos hlast]
          rfl
      | cons octet' s =>
          have hgoes : ¬ (filled.consume (octetRow octet)).atPadding stop = true := by
            intro hpadding
            have hones := (HuffmanReader.atPadding_iff buf).mp hpadding
            refine octetRow_word_ones octet' fun b hb => hones.2 b ?_
            rw [hnext, huffmanBits_cons]
            exact List.mem_append_left _ (List.mem_append_left _ hb)
          rw [if_neg hgoes, ih _ _ hnext (fun h => absurd h (List.cons_ne_nil _ _)), List.append_assoc]
          rfl

/-- The row a round finds starts the bits, and the next round reads what follows it. -/
theorem readRow {buf : Bytes} {stop : Nat} (hstop : stop ≤ buf.length) {r filled : HuffmanReader} {row : HuffmanRow}
    (hfilled : r.refill buf stop = .ok filled) (hmatch : filled.match? = some row) :
    row ∈ huffmanTable ∧ huffmanCode.word row <+: r.bits buf stop ∧
      (filled.consume row).bits buf stop = (r.bits buf stop).drop (huffmanCode.word row).length := by
  obtain ⟨filled', hfilled', hsame, hfull⟩ := HuffmanReader.refill_spec hstop r
  obtain rfl : filled = filled' := Except.ok.inj (hfilled.symm.trans hfilled')
  have hread := hmatch
  rw [HuffmanReader.match?_eq_read hfull, hsame] at hread
  obtain ⟨hmem, hword⟩ := huffmanCode.read_eq_some_iff.mp hread
  refine ⟨hmem, hword, ?_⟩
  rw [HuffmanReader.consume_bits hmatch, hsame, huffmanCode_word, HuffmanRow.word_length]

/-- What decoding returns was written at the front of the bits. -/
theorem write_prefix_of_huffmanDecodeFrom {buf : Bytes} {stop : Nat} (hstop : stop ≤ buf.length) {r : HuffmanReader}
    {chars result : List Nat} (h : huffmanDecodeFrom buf stop r chars = .ok result) :
    ∃ rows : List HuffmanRow, (∀ row ∈ rows, row ∈ huffmanTable) ∧ result = chars ++ rows.map HuffmanRow.symbol ∧
      huffmanCode.write rows <+: r.bits buf stop := by
  fun_induction huffmanDecodeFrom buf stop r chars with
  | case1 => simp at h
  | case2 => simp at h
  | case3 r chars hmore filled hfilled row hmatch next hpadding =>
      obtain rfl := Except.ok.inj h
      obtain ⟨hmem, hword, -⟩ := readRow hstop hfilled hmatch
      refine ⟨[row], fun row' hrow' => List.mem_singleton.mp hrow' ▸ hmem, rfl, ?_⟩
      rwa [PrefixCode.write_cons, PrefixCode.write_nil, List.append_nil]
  | case4 r chars hmore filled hfilled row hmatch next hmore' ih =>
      obtain ⟨hmem, hword, hnext⟩ := readRow hstop hfilled hmatch
      obtain ⟨rows, hrows, hresult, hwritten⟩ := ih h
      refine ⟨row :: rows, List.forall_mem_cons.mpr ⟨hmem, hrows⟩, ?_, ?_⟩
      · rw [hresult, List.append_assoc]
        rfl
      · rw [hnext] at hwritten
        rw [PrefixCode.write_cons, ← List.prefix_iff_eq_append.mp hword]
        exact (List.prefix_append_right_inj _).mpr hwritten
  | case5 r chars hdone =>
      obtain rfl := Except.ok.inj h
      exact ⟨[], fun row hrow => absurd hrow List.not_mem_nil, (List.append_nil _).symm, List.nil_prefix⟩

/-! ### The round trip -/

/-- The Latin-1 string of some octets. -/
def latin1 (s : Bytes) : String := decodeLatin1 (s.map UInt8.toNat)

theorem toNat_charOfNat {c : Nat} (h : c < 0xd800) : (Char.ofNat c).toNat = c := by
  have hvalid : c.isValidChar := .inl h
  rw [Char.ofNat, dif_pos hvalid]
  rfl

theorem decodeLatin1_injective {chars chars' : List Nat} (h : ∀ c ∈ chars, c < 0xd800) (h' : ∀ c ∈ chars', c < 0xd800)
    (hsame : decodeLatin1 chars = decodeLatin1 chars') : chars = chars' := by
  have hmap : chars.map Char.ofNat = chars'.map Char.ofNat := String.ofList_injective hsame
  have hvalue : ∀ l : List Nat, (∀ c ∈ l, c < 0xd800) → (l.map Char.ofNat).map Char.toNat = l := by
    intro l hl
    rw [List.map_map]
    exact (List.map_congr_left fun c hc => toNat_charOfNat (hl c hc)).trans (List.map_id l)
  rw [← hvalue chars h, ← hvalue chars' h', hmap]

theorem huffmanTable_symbol_lt {row : HuffmanRow} (h : row ∈ huffmanTable) : row.symbol < 257 := by
  have hmem : row.symbol ∈ huffmanTable.map HuffmanRow.symbol := List.mem_map_of_mem h
  rw [huffmanTable_symbols] at hmem
  exact List.mem_range.mp hmem

theorem rows_of_symbols {rows : List HuffmanRow} (hrows : ∀ row ∈ rows, row ∈ huffmanTable) {s : Bytes}
    (h : rows.map HuffmanRow.symbol = s.map UInt8.toNat) : rows = s.map octetRow := by
  have hlookup := congrArg (List.map fun symbol => huffmanTable[symbol]?) h
  rw [List.map_map, List.map_map] at hlookup
  have hfound : rows.map ((fun symbol => huffmanTable[symbol]?) ∘ HuffmanRow.symbol) = rows.map some :=
    List.map_congr_left fun row hrow => HuffmanRow.getElem?_symbol (hrows row hrow)
  have hoctets : s.map ((fun symbol => huffmanTable[symbol]?) ∘ UInt8.toNat) = (s.map octetRow).map some := by
    rw [List.map_map]
    exact List.map_congr_left fun octet _ => octetRow_get octet
  exact List.map_injective_iff.mpr (Option.some_injective _) ((hfound.symm.trans hlookup).trans hoctets)

theorem bits_initial (before out rest : Bytes) :
    HuffmanReader.bits (before ++ out ++ rest) (before.length + out.length) ⟨0, 0, before.length⟩ = octetBits out := by
  rw [HuffmanReader.bits, ← List.length_append, List.take_left, List.drop_left]
  rfl

theorem huffmanDecode_nextOffset {buf : Bytes} {offset length : Nat} {decoded : DecodedHuffman}
    (h : huffmanDecode buf offset length = .ok decoded) : decoded.nextOffset = offset + length := by
  rw [huffmanDecode] at h
  split at h
  · simp at h
  · obtain rfl := Except.ok.inj h
    rfl

theorem huffmanDecode_of_bits (before rest : Bytes) {s out : Bytes} {k : Nat} (hk : k < 8)
    (hout : octetBits out = huffmanBits s ++ List.replicate k true) :
    huffmanDecode (before ++ out ++ rest) before.length out.length = .ok ⟨latin1 s, before.length + out.length⟩ := by
  have hstop : before.length + out.length ≤ (before ++ out ++ rest).length := by
    simp only [List.length_append]
    omega
  have hread := huffmanDecodeFrom_huffmanBits hstop ⟨0, 0, before.length⟩ s [] hk (by rw [bits_initial, hout]) (by
    rintro rfl
    have hlen := congrArg List.length hout
    simp only [octetBits_length, huffmanBits_nil, List.nil_append, List.length_replicate] at hlen
    omega)
  rw [huffmanDecode, hread]
  rfl

/-- What encoding writes reads back exactly when every code word fits the buffer. -/
theorem huffmanDecode_huffmanEncode_iff (s : Bytes) :
    ∃ out, huffmanEncode s = .ok out ∧ 8 * out.length ≤ 30 * s.length + 7 ∧ ∀ before rest,
      (huffmanDecode (before ++ out ++ rest) before.length out.length = .ok ⟨latin1 s, before.length + out.length⟩ ↔
        fitsBuffer [] s = true) := by
  obtain ⟨out, tail, hout, hbits, hshort, hspec⟩ := huffmanEncodeFrom_spec .initial (by decide) s
  have hinitial : octetBits out = tail := hbits
  have hpending : HuffmanWriter.initial.pending = [] := rfl
  rw [hpending] at hspec
  have hlen : 8 * out.length ≤ 30 * s.length + 7 := by
    rw [← octetBits_length, hinitial]
    exact hshort.trans_eq (by rw [HuffmanWriter.initial, Nat.zero_add])
  refine ⟨out, hout, hlen, fun before rest => ?_⟩
  have hstop : before.length + out.length ≤ (before ++ out ++ rest).length := by
    simp only [List.length_append]
    omega
  constructor
  · intro hdecode
    rw [huffmanDecode] at hdecode
    cases hfits : fitsBuffer [] s with
    | true => rfl
    | false =>
        rw [hfits] at hspec
        split at hdecode
        · simp at hdecode
        · rename_i chars hchars
          obtain ⟨rows, hrows, hresult, hwritten⟩ := write_prefix_of_huffmanDecodeFrom hstop hchars
          rw [bits_initial, hinitial] at hwritten
          have hvalue : decodeLatin1 chars = latin1 s := congrArg DecodedHuffman.value (Except.ok.inj hdecode)
          have hsymbols : rows.map HuffmanRow.symbol = s.map UInt8.toNat := by
            rw [List.nil_append] at hresult
            rw [← hresult]
            refine decodeLatin1_injective (fun c hc => ?_) (fun c hc => ?_) hvalue
            · rw [hresult] at hc
              obtain ⟨row, hrow, rfl⟩ := List.mem_map.mp hc
              exact (huffmanTable_symbol_lt (hrows row hrow)).trans (by decide)
            · obtain ⟨octet, -, rfl⟩ := List.mem_map.mp hc
              exact octet.toNat_lt.trans (by decide)
          rw [rows_of_symbols hrows hsymbols] at hwritten
          exact absurd hwritten hspec
  · intro hfits
    rw [hfits] at hspec
    obtain ⟨k, hk, rfl⟩ := hspec
    exact huffmanDecode_of_bits before rest hk hinitial

/-! ### Length-prefixed strings -/

/-- The length of a string literal with the Huffman flag beside it. -/
def lengthOctets (huffman : Bool) (n : Nat) : Bytes :=
  if huffman then setFlag 0x80 (integerOctets n 7) else integerOctets n 7

theorem lengthOctets_cons (huffman : Bool) (n : Nat) :
    ∃ first marked more, integerOctets n 7 = first :: more ∧ lengthOctets huffman n = marked :: more ∧
      marked.toNat &&& (2 ^ 7 - 1) = first.toNat ∧ (marked.toNat &&& 0x80 ≠ 0 ↔ huffman = true) := by
  obtain ⟨first, more, hoctets, hfirst⟩ := integerOctets_cons n (show 7 ≤ 8 by decide)
  have hplain : ∀ f : Fin 128, f.val &&& (2 ^ 7 - 1) = f.val ∧ f.val &&& 0x80 = 0 := by decide
  have hflag : ∀ f : Fin 128, (f.val ||| 0x80) &&& (2 ^ 7 - 1) = f.val ∧ (f.val ||| 0x80) &&& 0x80 ≠ 0 := by decide
  have hlt : first.toNat < 128 := by omega
  cases huffman with
  | false =>
      obtain ⟨hlow, hhigh⟩ := hplain ⟨first.toNat, hlt⟩
      exact ⟨first, first, more, hoctets, hoctets, hlow, by simp [hhigh]⟩
  | true =>
      obtain ⟨hlow, hhigh⟩ := hflag ⟨first.toNat, hlt⟩
      refine ⟨first, first ||| 0x80, more, hoctets, ?_, ?_, ?_⟩
      · rw [lengthOctets, if_pos rfl, hoctets, setFlag]
      · rw [UInt8.toNat_or]
        exact hlow
      · rw [UInt8.toNat_or]
        exact iff_of_true hhigh rfl

/-- A string literal is decoded by its flag from the octets behind the length. -/
theorem decodeString_lengthOctets (before octets rest : Bytes) (huffman : Bool) (hlen : octets.length < Js.exactBound) :
    let front := before ++ lengthOctets huffman octets.length
    decodeString (front ++ octets ++ rest) (.finite before.length) =
      match huffman with
      | true => (huffmanDecode (front ++ octets ++ rest) front.length octets.length).map fun decoded =>
          ⟨decoded.value, .finite (front.length + octets.length)⟩
      | false => .ok ⟨latin1 octets, .finite (front.length + octets.length)⟩ := by
  intro front
  obtain ⟨first, marked, more, hoctets, hlength, hlow, hflag⟩ := lengthOctets_cons huffman octets.length
  have hfront : front = before ++ marked :: more := congrArg (before ++ ·) hlength
  have hget : octetAt (front ++ octets ++ rest) (.finite before.length) = some marked := by
    rw [hfront]
    simp [octetAt]
  have hinteger : decodeInteger (front ++ octets ++ rest) before.length 7 = .ok ⟨.finite octets.length, front.length⟩ := by
    rw [hfront, List.append_assoc (before ++ marked :: more), List.length_append]
    exact decodeInteger_integerOctets before (octets ++ rest) (show 7 ≤ 8 by decide) hlen hoctets hlow
  have hinside : JsNat.lt (.finite (front ++ octets ++ rest).length) (.finite (front.length + octets.length)) = false := by
    simp only [JsNat.lt, List.length_append, decide_eq_false_iff_not]
    omega
  simp only [decodeString, hget]
  rw [decodeStringAt, hinteger]
  simp only [JsNat.past, hinside, Bool.false_eq_true, if_false]
  cases huffman with
  | true =>
      rw [if_pos (hflag.mpr rfl)]
      cases huffmanDecode (front ++ octets ++ rest) front.length octets.length <;> rfl
  | false =>
      rw [if_neg fun h => Bool.false_ne_true (hflag.mp h), List.append_assoc, List.drop_left, List.take_left]
      rfl

/-- A string that encodes is the Latin-1 string of its octets. -/
theorem latin1_of_encodeLatin1 {v : String} {s : Bytes} (h : encodeLatin1 v = .ok s) : v = latin1 s := by
  have hchars : ∀ (cs : List Char) (offset : Nat) (s : Bytes), encodeLatin1From offset cs = .ok s →
      cs = (s.map UInt8.toNat).map Char.ofNat := by
    intro cs
    induction cs with
    | nil =>
        intro offset s h
        obtain rfl := Except.ok.inj h
        rfl
    | cons c cs ih =>
        intro offset s h
        rw [encodeLatin1From] at h
        split at h
        · simp at h
        · rename_i hsmall
          split at h
          · simp at h
          · rename_i s' hs'
            obtain rfl := Except.ok.inj h
            have hoctet : c.toNat.toUInt8.toNat = c.toNat := Nat.mod_eq_of_lt (by omega)
            rw [List.map_cons, List.map_cons, hoctet, Char.ofNat_toNat, ← ih _ _ hs']
  rw [latin1, decodeLatin1, ← hchars v.toList 0 s h, String.ofList_toList]

theorem encodeStringHuffman_of_octets {v : String} {s out : Bytes} (hv : encodeLatin1 v = .ok s) (hout : huffmanEncode s = .ok out) :
    encodeStringHuffman v = .ok (lengthOctets true out.length ++ out) := by
  rw [encodeStringHuffman, hv]
  show (huffmanEncode s >>= fun encoded => _) = _
  rw [hout]
  show (encodeInteger out.length 7 >>= fun lengthOctets => _) = _
  rw [encodeInteger_natCast]
  rfl

/-- Encoding and decoding an octet string, bare or as a length-prefixed string, gives it back exactly when
every code word fits the buffer behind the bits pending. No array holds the octets of a string beyond the
length bound. -/
theorem huffman_round_trip_iff (s : Bytes) :
    ((∃ encoded, huffmanEncode s = .ok encoded ∧
        huffmanDecode encoded 0 encoded.length = .ok ⟨latin1 s, encoded.length⟩) ↔ fitsBuffer [] s = true) ∧
      ∀ v rest, encodeLatin1 v = .ok s → s.length < 2 ^ 50 →
        ((∃ encoded, encodeStringHuffman v = .ok encoded ∧
          decodeString (encoded ++ rest) (.finite 0) = .ok ⟨v, .finite encoded.length⟩) ↔ fitsBuffer [] s = true) := by
  obtain ⟨out, hout, hlen, hiff⟩ := huffmanDecode_huffmanEncode_iff s
  constructor
  · have hbare := hiff [] []
    rw [List.nil_append, List.append_nil, List.length_nil, Nat.zero_add] at hbare
    rw [← hbare]
    constructor
    · rintro ⟨encoded, hencoded, hdecoded⟩
      obtain rfl : out = encoded := Except.ok.inj (hout.symm.trans hencoded)
      exact hdecoded
    · exact fun hdecoded => ⟨out, hout, hdecoded⟩
  · intro v rest hv hbound
    obtain rfl := latin1_of_encodeLatin1 hv
    have hexact : out.length < Js.exactBound := by
      rw [Js.exactBound]
      omega
    have hencoded := encodeStringHuffman_of_octets hv hout
    have hdecoded := decodeString_lengthOctets [] out rest true hexact
    simp only [List.nil_append, List.length_nil] at hdecoded
    rw [← hiff (lengthOctets true out.length) rest]
    constructor
    · rintro ⟨encoded, hencoded', hread⟩
      obtain rfl := Except.ok.inj (hencoded.symm.trans hencoded')
      rw [hdecoded] at hread
      cases hinner : huffmanDecode (lengthOctets true out.length ++ out ++ rest) (lengthOctets true out.length).length out.length with
      | error e =>
          rw [hinner] at hread
          exact absurd hread (by simp [Except.map])
      | ok decoded =>
          rw [hinner] at hread
          have hvalue : decoded.value = latin1 s := congrArg DecodedString.value (Except.ok.inj hread)
          rw [← hvalue, ← huffmanDecode_nextOffset hinner]
    · intro hread
      refine ⟨_, hencoded, ?_⟩
      rw [hdecoded, hread, List.length_append]
      rfl

/-- The condition is met by a pseudo-header's name and value. -/
theorem huffman_round_trip_iff_method :
    ∃ encoded, encodeStringHuffman ":method GET" = .ok encoded ∧
      decodeString (encoded ++ [0x82]) (.finite 0) = .ok ⟨":method GET", .finite encoded.length⟩ :=
  ((huffman_round_trip_iff (":method GET".toList.map fun c => c.toNat.toUInt8)).2 ":method GET" [0x82] (by decide) (by decide)).mpr
    (by decide +kernel)

/-- A line feed after a letter loses its high bits. -/
theorem letter_lineFeed_lost :
    ¬ ∃ encoded, huffmanEncode [0x61, 0x0a] = .ok encoded ∧
      huffmanDecode encoded 0 encoded.length = .ok ⟨latin1 [0x61, 0x0a], encoded.length⟩ := by
  have hencoded : huffmanEncode [0x61, 0x0a] = .ok [0xff, 0xff, 0xff, 0xff, 0x9f] := by decide +kernel
  rintro ⟨encoded, hencoded', hdecoded⟩
  obtain rfl := Except.ok.inj (hencoded.symm.trans hencoded')
  revert hdecoded
  decide +kernel

end BrowsercoreHttp2
