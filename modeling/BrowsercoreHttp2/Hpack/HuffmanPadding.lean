import BrowsercoreHttp2.Hpack.HuffmanRoundTrip

/-!
# What the Huffman decoder accepts

A legal encoding is the code words of some octets and less than an octet of ones. The decoder takes the end-of-string
word for one more symbol, and it asks whether ones are left as soon as all octets are in its buffer. The buffer holds at
most 37 bits, so behind the last code word there is room for more ones than the padding may have.
-/

namespace BrowsercoreHttp2

/-- The bits are the code words of the octets and at most seven ones. -/
def Encodes (bits : List Bool) (s : Bytes) : Prop := ∃ k ≤ 7, bits = huffmanBits s ++ List.replicate k true

/-- The bits are code words and then ones, which fit the decoder's buffer together with the last word. -/
structure FillsBuffer (bits : List Bool) (rows : List HuffmanRow) (k : Nat) : Prop where
  mem : ∀ row ∈ rows, row ∈ huffmanTable
  eq : bits = huffmanCode.write rows ++ List.replicate k true
  last : ∀ row ∈ rows.getLast?, row.bits + k ≤ 37
  nil : rows = [] → k = 0

/-- The buffer takes in an end-of-string word or an octet of padding. -/
def Overfilled (bits : List Bool) : Prop :=
  ∃ rows k, FillsBuffer bits rows k ∧ ((∃ row ∈ rows, row.symbol = 256) ∨ 8 ≤ k)

/-- Decoding succeeds on the legal encodings and returns their octets, and it fails on everything else. -/
structure DecodesExactly (buf : Bytes) (offset length : Nat) : Prop where
  legal : ∀ s, Encodes (octetBits ((buf.drop offset).take length)) s →
    huffmanDecode buf offset length = .ok ⟨latin1 s, offset + length⟩
  illegal : (¬ ∃ s, Encodes (octetBits ((buf.drop offset).take length)) s) → ∃ e, huffmanDecode buf offset length = .error e

/-! ### Words and ones -/

theorem ones_of_leading_word {row : HuffmanRow} {k : Nat} (h : row.word <+: List.replicate k true) : ∀ b ∈ row.word, b = true :=
  fun _ hb => List.eq_of_mem_replicate (h.subset hb)

/-- A legal encoding has no other reading as code words and ones. -/
theorem Encodes.rows_eq {bits : List Bool} {s : Bytes} (h : Encodes bits s) {rows : List HuffmanRow} {k : Nat}
    (hrows : ∀ row ∈ rows, row ∈ huffmanTable) (hbits : bits = huffmanCode.write rows ++ List.replicate k true) :
    rows = s.map octetRow ∧ k ≤ 7 := by
  obtain ⟨k', hk', hlegal⟩ := h
  induction s generalizing bits rows with
  | nil =>
      cases rows with
      | nil =>
          have hlen := congrArg List.length (hbits.symm.trans hlegal)
          simp only [PrefixCode.write_nil, huffmanBits_nil, List.nil_append, List.length_replicate] at hlen
          exact ⟨rfl, hlen.trans_le hk'⟩
      | cons row rows =>
          have hword : row.word <+: List.replicate k' true := by
            rw [huffmanBits_nil, List.nil_append] at hlegal
            rw [← hlegal, hbits, PrefixCode.write_cons, List.append_assoc]
            exact List.prefix_append _ _
          have hbits30 := (word_ones (hrows row List.mem_cons_self) (ones_of_leading_word hword)).2
          have hlen := hword.length_le
          rw [HuffmanRow.word_length, List.length_replicate] at hlen
          omega
  | cons octet s ih =>
      rw [huffmanBits_cons, List.append_assoc] at hlegal
      have hoctet : (octetRow octet).word <+: bits := hlegal ▸ List.prefix_append _ _
      cases rows with
      | nil =>
          rw [PrefixCode.write_nil, List.nil_append] at hbits
          exact absurd (ones_of_leading_word (hbits ▸ hoctet)) (octetRow_word_ones octet)
      | cons row rows =>
          rw [PrefixCode.write_cons, List.append_assoc] at hbits
          have hrow : row.word <+: bits := hbits ▸ List.prefix_append _ _
          obtain rfl : row = octetRow octet :=
            huffmanCode.eq_of_prefix (hrows row List.mem_cons_self) (octetRow_mem octet) hrow hoctet
          have hrest := List.append_cancel_left (hbits.symm.trans hlegal)
          obtain ⟨htail, hk⟩ := ih (fun row hrow => hrows row (List.mem_cons_of_mem _ hrow)) hrest.symm rfl
          exact ⟨by rw [htail, List.map_cons], hk⟩

theorem rows_eq_octets {rows : List HuffmanRow} (hrows : ∀ row ∈ rows, row ∈ huffmanTable) (hoctets : ∀ row ∈ rows, row.symbol ≠ 256) :
    ∃ s : Bytes, rows = s.map octetRow := by
  refine ⟨rows.map fun row => UInt8.ofNat row.symbol, rows_of_symbols hrows ?_⟩
  rw [List.map_map]
  apply List.map_congr_left
  intro row hrow
  have hlt := huffmanTable_symbol_lt (hrows row hrow)
  have hne := hoctets row hrow
  have hmod : (UInt8.ofNat row.symbol).toNat = row.symbol % 256 := rfl
  rw [Function.comp_apply, hmod]
  omega

namespace HuffmanReader

variable {buf : Bytes} {stop : Nat}

/-! ### The buffer -/

theorem bits_length (hstop : stop ≤ buf.length) (r : HuffmanReader) : (r.bits buf stop).length = r.remaining stop := by
  rw [bits, List.length_append, bitsOf_length, octetBits_length, List.length_drop, List.length_take_of_le hstop, remaining]
  omega

theorem refill_bitsAvailable {r filled : HuffmanReader} (h : r.refill buf stop = .ok filled) (hr : r.bitsAvailable ≤ 37) :
    filled.bitsAvailable ≤ 37 := by
  fun_induction HuffmanReader.refill buf stop r with
  | case1 => simp at h
  | case2 r hmore octet hoctet ih =>
      apply ih h
      dsimp only
      omega
  | case3 =>
      obtain rfl := Except.ok.inj h
      exact hr

theorem refill_drained_iff (hstop : stop ≤ buf.length) {r filled : HuffmanReader} (h : r.refill buf stop = .ok filled)
    (hr : r.bitsAvailable ≤ 37) : stop ≤ filled.position ↔ (r.bits buf stop).length ≤ 37 := by
  obtain ⟨filled', hfilled, -, hfull⟩ := refill_spec hstop r
  obtain rfl : filled = filled' := Except.ok.inj (h.symm.trans hfilled)
  have hroom := refill_bitsAvailable h hr
  have hremaining := refill_remaining h
  rw [bits_length hstop, ← hremaining, remaining]
  omega

theorem consume_bitsAvailable {r : HuffmanReader} (row : HuffmanRow) (hr : r.bitsAvailable ≤ 37) :
    (r.consume row).bitsAvailable ≤ 37 := by
  rw [consume]
  dsimp only
  omega

theorem round_atPadding_iff (hstop : stop ≤ buf.length) {r filled : HuffmanReader} {row : HuffmanRow}
    (hfilled : r.refill buf stop = .ok filled) (hmatch : filled.match? = some row) (hr : r.bitsAvailable ≤ 37) :
    (filled.consume row).atPadding stop = true ↔
      (r.bits buf stop).length ≤ 37 ∧ ∀ b ∈ (r.bits buf stop).drop row.bits, b = true := by
  obtain ⟨-, -, hnext⟩ := readRow hstop hfilled hmatch
  rw [atPadding_iff buf, hnext, huffmanCode_word, HuffmanRow.word_length, ← refill_drained_iff hstop hfilled hr]
  exact Iff.rfl

end HuffmanReader

theorem FillsBuffer.single {bits : List Bool} {row : HuffmanRow} {k : Nat} (hrow : row ∈ huffmanTable)
    (hbits : bits = row.word ++ List.replicate k true) (hroom : row.bits + k ≤ 37) : FillsBuffer bits [row] k where
  mem row' hrow' := List.mem_singleton.mp hrow' ▸ hrow
  eq := by
    rw [hbits, PrefixCode.write_cons, PrefixCode.write_nil, List.append_nil]
    rfl
  last row' hlast := by
    obtain rfl : row = row' := Option.some.inj hlast
    exact hroom
  nil hnil := absurd hnil (List.cons_ne_nil _ _)

/-! ### Runs of the decoder -/

section Decoder

variable {buf : Bytes} {stop : Nat}

/-- Code words and ones that fit the buffer are accepted. -/
theorem FillsBuffer.accepted (hstop : stop ≤ buf.length) {r : HuffmanReader} (hr : r.bitsAvailable ≤ 37) {rows : List HuffmanRow} {k : Nat}
    (h : FillsBuffer (r.bits buf stop) rows k) (chars : List Nat) : ∃ out, huffmanDecodeFrom buf stop r chars = .ok out := by
  induction rows generalizing r chars with
  | nil =>
      have hnone : r.bits buf stop = [] := by
        rw [h.eq, h.nil rfl]
        rfl
      exact ⟨chars, by rw [huffmanDecodeFrom, if_neg ((HuffmanReader.bits_eq_nil_iff hstop r).mp hnone)]⟩
  | cons row rows ih =>
      have hrow := h.mem row List.mem_cons_self
      have hword : r.bits buf stop = row.word ++ (huffmanCode.write rows ++ List.replicate k true) := by
        rw [h.eq, PrefixCode.write_cons, List.append_assoc]
        rfl
      have hmore : r.position < stop ∨ 0 < r.bitsAvailable := by
        by_contra hnone
        rw [(HuffmanReader.bits_eq_nil_iff hstop r).mpr hnone] at hword
        exact huffmanCode.ne_nil row hrow (List.append_eq_nil_iff.mp hword.symm).1
      obtain ⟨filled, hfilled, hsame, hfull⟩ := HuffmanReader.refill_spec hstop r
      have hmatch : filled.match? = some row := by
        rw [HuffmanReader.match?_eq_read hfull, hsame, hword]
        exact huffmanCode.read_write_cons hrow _
      have hdrop : (r.bits buf stop).drop row.bits = huffmanCode.write rows ++ List.replicate k true := by
        rw [hword, List.drop_left' row.word_length]
      rw [huffmanDecodeFrom_step hmore hfilled hmatch]
      split
      · exact ⟨_, rfl⟩
      · rename_i hgoes
        have hnext : (filled.consume row).bits buf stop = huffmanCode.write rows ++ List.replicate k true := by
          rw [HuffmanReader.consume_bits hmatch, hsame, hdrop]
        apply ih (HuffmanReader.consume_bitsAvailable row (HuffmanReader.refill_bitsAvailable hfilled hr))
        refine ⟨fun row hrow => h.mem row (List.mem_cons_of_mem _ hrow), hnext, ?_, ?_⟩
        · intro last hlast
          apply h.last
          rw [List.getLast?_cons, Option.mem_def.mp hlast]
          rfl
        · -- The last word with the ones behind it fits the buffer, so the decoder has stopped here.
          intro hlast
          have hroom := h.last row (by rw [hlast]; rfl)
          rw [HuffmanReader.round_atPadding_iff hstop hfilled hmatch hr] at hgoes
          rw [hlast, PrefixCode.write_nil, List.nil_append] at hdrop hword
          refine absurd ⟨?_, fun b hb => ?_⟩ hgoes
          · rw [hword, List.length_append, HuffmanRow.word_length, List.length_replicate]
            exact hroom
          · rw [hdrop] at hb
            exact List.eq_of_mem_replicate hb

/-- What is accepted are code words and ones that fit the buffer. -/
theorem fillsBuffer_of_accepted (hstop : stop ≤ buf.length) {r : HuffmanReader} (hr : r.bitsAvailable ≤ 37) {chars out : List Nat}
    (h : huffmanDecodeFrom buf stop r chars = .ok out) : ∃ rows k, FillsBuffer (r.bits buf stop) rows k := by
  fun_induction huffmanDecodeFrom buf stop r chars with
  | case1 => simp at h
  | case2 => simp at h
  | case3 r chars hmore filled hfilled row hmatch next hpadding =>
      obtain ⟨hmem, hword, -⟩ := readRow hstop hfilled hmatch
      obtain ⟨hroom, hones⟩ := (HuffmanReader.round_atPadding_iff hstop hfilled hmatch hr).mp hpadding
      have hlen := hword.length_le
      rw [huffmanCode_word, HuffmanRow.word_length] at hlen
      refine ⟨[row], (r.bits buf stop).length - row.bits, FillsBuffer.single hmem ?_ (by omega)⟩
      nth_rewrite 1 [← List.prefix_iff_eq_append.mp hword]
      apply congrArg
      rw [huffmanCode_word, HuffmanRow.word_length]
      exact List.eq_replicate_iff.mpr ⟨List.length_drop, hones⟩
  | case4 r chars hmore filled hfilled row hmatch next hmore' ih =>
      obtain ⟨hmem, hword, hnext⟩ := readRow hstop hfilled hmatch
      obtain ⟨rows, k, hfills⟩ := ih (HuffmanReader.consume_bitsAvailable row (HuffmanReader.refill_bitsAvailable hfilled hr)) h
      have hbits : r.bits buf stop = huffmanCode.write (row :: rows) ++ List.replicate k true := by
        rw [PrefixCode.write_cons, List.append_assoc, ← hfills.eq, hnext]
        exact (List.prefix_iff_eq_append.mp hword).symm
      refine ⟨row :: rows, k, List.forall_mem_cons.mpr ⟨hmem, hfills.mem⟩, hbits, ?_, fun hnil => absurd hnil (List.cons_ne_nil _ _)⟩
      intro last hlast
      cases rows with
      | nil =>
          obtain rfl : row = last := Option.some.inj hlast
          have hshort := (huffmanTable_bounds row hmem).2.1
          have hnone := hfills.nil rfl
          omega
      | cons row' rows =>
          apply hfills.last
          rwa [List.getLast?_cons_cons] at hlast
  | case5 r chars hdone =>
      refine ⟨[], 0, fun row hrow => absurd hrow List.not_mem_nil, ?_, fun row hrow => absurd hrow (Option.not_mem_none row), fun _ => rfl⟩
      exact (HuffmanReader.bits_eq_nil_iff hstop r).mpr hdone

theorem bits_region (buf : Bytes) (offset length : Nat) :
    HuffmanReader.bits buf (offset + length) ⟨0, 0, offset⟩ = octetBits ((buf.drop offset).take length) := by
  rw [HuffmanReader.bits, List.drop_take, Nat.add_sub_cancel_left]
  rfl

variable {offset length : Nat}

theorem huffmanDecode_ok_iff (hin : offset + length ≤ buf.length) :
    (∃ out, huffmanDecode buf offset length = .ok out) ↔
      ∃ rows k, FillsBuffer (octetBits ((buf.drop offset).take length)) rows k := by
  rw [← bits_region]
  constructor
  · rintro ⟨out, hout⟩
    rw [huffmanDecode] at hout
    split at hout
    · simp at hout
    · rename_i chars hchars
      exact fillsBuffer_of_accepted hin (Nat.zero_le 37) hchars
  · rintro ⟨rows, k, hfills⟩
    obtain ⟨chars, hchars⟩ := hfills.accepted hin (Nat.zero_le 37) []
    exact ⟨⟨decodeLatin1 chars, offset + length⟩, by rw [huffmanDecode, hchars]⟩

theorem Encodes.huffmanDecode_eq (hin : offset + length ≤ buf.length) {s : Bytes}
    (h : Encodes (octetBits ((buf.drop offset).take length)) s) :
    huffmanDecode buf offset length = .ok ⟨latin1 s, offset + length⟩ := by
  obtain ⟨k, hk, hbits⟩ := h
  have hread := huffmanDecodeFrom_huffmanBits hin ⟨0, 0, offset⟩ s [] (Nat.lt_succ_of_le hk) (by rw [bits_region, hbits]) (by
    rintro rfl
    have hlen := congrArg List.length hbits
    rw [octetBits_length, huffmanBits_nil, List.nil_append, List.length_replicate] at hlen
    omega)
  rw [huffmanDecode, hread]
  rfl

theorem Overfilled.not_encodes {bits : List Bool} (h : Overfilled bits) : ¬ ∃ s, Encodes bits s := by
  rintro ⟨s, hlegal⟩
  obtain ⟨rows, k, hfills, hover⟩ := h
  obtain ⟨rfl, hk⟩ := hlegal.rows_eq hfills.mem hfills.eq
  apply hover.elim
  · rintro ⟨row, hrow, hsymbol⟩
    obtain ⟨octet, -, rfl⟩ := List.mem_map.mp hrow
    rw [octetRow_symbol] at hsymbol
    exact absurd hsymbol octet.toNat_lt.ne
  · exact fun hmany => absurd hk (Nat.not_le_of_lt hmany)

theorem FillsBuffer.encodes {bits : List Bool} {rows : List HuffmanRow} {k : Nat} (h : FillsBuffer bits rows k) (hover : ¬ Overfilled bits) :
    ∃ s, Encodes bits s := by
  have hoctets : ∀ row ∈ rows, row.symbol ≠ 256 := fun row hrow hsymbol => hover ⟨rows, k, h, .inl ⟨row, hrow, hsymbol⟩⟩
  obtain ⟨s, rfl⟩ := rows_eq_octets h.mem hoctets
  refine ⟨s, k, ?_, h.eq⟩
  by_contra hmany
  exact hover ⟨_, k, h, .inr (Nat.lt_of_not_le hmany)⟩

end Decoder

/-- Decoding accepts the legal encodings only, and reads them right, exactly on bits that do not overfill its buffer. -/
theorem huffmanDecode_exact_iff {buf : Bytes} {offset length : Nat} (hin : offset + length ≤ buf.length) :
    DecodesExactly buf offset length ↔ ¬ Overfilled (octetBits ((buf.drop offset).take length)) := by
  constructor
  · intro hexact hover
    obtain ⟨e, herror⟩ := hexact.illegal hover.not_encodes
    obtain ⟨rows, k, hfills, -⟩ := hover
    obtain ⟨out, hout⟩ := (huffmanDecode_ok_iff hin).mpr ⟨rows, k, hfills⟩
    rw [hout] at herror
    simp at herror
  · refine fun hover => ⟨fun s hlegal => hlegal.huffmanDecode_eq hin, fun hillegal => ?_⟩
    cases hdecode : huffmanDecode buf offset length with
    | error e => exact ⟨e, rfl⟩
    | ok out =>
        obtain ⟨rows, k, hfills⟩ := (huffmanDecode_ok_iff hin).mp ⟨out, hdecode⟩
        exact absurd (hfills.encodes hover) hillegal

/-- The code word of `a` with three ones, which is the whole of an octet. -/
theorem huffmanDecode_exact_iff_a :
    DecodesExactly [0x1f] 0 1 ↔ ¬ Overfilled (octetBits ((List.drop 0 [0x1f]).take 1)) :=
  huffmanDecode_exact_iff (by decide)

theorem huffmanDecode_single {buf : Bytes} {length : Nat} (filled : HuffmanReader) (row : HuffmanRow) (hlength : 0 < length)
    (hfilled : HuffmanReader.refill buf length ⟨0, 0, 0⟩ = .ok filled) (hmatch : filled.match? = some row)
    (hpadding : (filled.consume row).atPadding length = true) :
    huffmanDecode buf 0 length = .ok ⟨decodeLatin1 [row.symbol], length⟩ := by
  rw [huffmanDecode, Nat.zero_add, huffmanDecodeFrom_step (.inl hlength) hfilled hmatch, if_pos hpadding]
  rfl

/-- The end-of-string word is decoded to a character, and eleven ones pass as padding. -/
theorem overfilled_accepted :
    huffmanDecode [0xff, 0xff, 0xff, 0xff] 0 4 = .ok ⟨decodeLatin1 [256], 4⟩ ∧ ¬ DecodesExactly [0xff, 0xff, 0xff, 0xff] 0 4 ∧
      huffmanDecode [0x1f, 0xff] 0 2 = .ok ⟨decodeLatin1 [0x61], 2⟩ ∧ ¬ DecodesExactly [0x1f, 0xff] 0 2 := by
  have heos : huffmanDecode [0xff, 0xff, 0xff, 0xff] 0 4 = .ok ⟨decodeLatin1 [256], 4⟩ := by
    apply huffmanDecode_single ⟨0xffffffff, 32, 4⟩ ⟨30, 0x3fffffff, 256⟩ (by decide)
    · simp [HuffmanReader.refill]
    · decide +kernel
    · decide
  have hlong : huffmanDecode [0x1f, 0xff] 0 2 = .ok ⟨decodeLatin1 [0x61], 2⟩ := by
    apply huffmanDecode_single ⟨0x1fff, 16, 2⟩ ⟨5, 0x3, 0x61⟩ (by decide)
    · simp [HuffmanReader.refill]
    · decide +kernel
    · decide
  refine ⟨heos, fun h => ?_, hlong, fun h => ?_⟩
  · have hfills : FillsBuffer (octetBits ((List.drop 0 [0xff, 0xff, 0xff, 0xff]).take 4)) [⟨30, 0x3fffffff, 256⟩] 2 :=
      .single (by decide +kernel) (by decide) (by decide)
    obtain ⟨e, herror⟩ := h.illegal (Overfilled.not_encodes ⟨_, _, hfills, .inl ⟨_, List.mem_cons_self, rfl⟩⟩)
    rw [heos] at herror
    simp at herror
  · have hfills : FillsBuffer (octetBits ((List.drop 0 [0x1f, 0xff]).take 2)) [⟨5, 0x3, 0x61⟩] 11 :=
      .single (by decide +kernel) (by decide) (by decide)
    obtain ⟨e, herror⟩ := h.illegal (Overfilled.not_encodes ⟨_, _, hfills, .inr (by decide)⟩)
    rw [hlong] at herror
    simp at herror

end BrowsercoreHttp2
