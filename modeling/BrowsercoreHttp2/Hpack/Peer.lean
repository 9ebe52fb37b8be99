import BrowsercoreHttp2.Hpack.HuffmanRoundTrip
import BrowsercoreHttp2.Hpack.Representation

/-!
# A conformant peer

An RFC 7541 encoder may write a header list as any representations that mean it under the encoder's own
table, each string raw or Huffman-coded. This module states what such a block means to the encoder, and
compares it with what the decoder makes of the octets. The two static tables differ in the name of the
entries 8 to 14; the dynamic tables hold the newest entries of one history, up to that name.
-/

namespace BrowsercoreHttp2

/-! ### Octets -/

/-- A string literal of RFC 7541 section 5.2, with the octets it is coded as. -/
structure StringLiteral where
  octets : Bytes
  huffman : Bool
  coded : Bytes
  wellCoded : if huffman then ∃ padding < 8, octetBits coded = huffmanBits octets ++ List.replicate padding true else coded = octets
  short : coded.length < Js.exactBound

namespace StringLiteral

def text (l : StringLiteral) : String := latin1 l.octets

def wire (l : StringLiteral) : Bytes := lengthOctets l.huffman l.coded.length ++ l.coded

/-- A string as it stands, octet for octet. -/
def raw (octets : Bytes) (h : octets.length < Js.exactBound) : StringLiteral := ⟨octets, false, octets, rfl, h⟩

end StringLiteral

/-- A table size is at most a 32-bit setting, and an entry takes at least 32 octets of it. -/
abbrev WireIndex := { n : Nat // 0 < n ∧ n < 2 ^ 32 }

abbrev WireSize := { n : Nat // n < 2 ^ 32 }

inductive WireName where
  | indexed (index : WireIndex)
  | new (name : StringLiteral)

/-- A representation as an encoder chooses it. -/
inductive WireRepresentation where
  | indexed (index : WireIndex)
  | literal (name : WireName) (value : StringLiteral) (indexing : LiteralIndexing)
  | sizeUpdate (size : WireSize)

def LiteralIndexing.prefixBits : LiteralIndexing → Nat
  | .incremental => 6
  | .noIndexing | .neverIndexed => 4

def LiteralIndexing.flag : LiteralIndexing → UInt8
  | .incremental => 0x40
  | .noIndexing => 0x00
  | .neverIndexed => 0x10

namespace WireName

/-- The name index of the literal, 0 where the name follows. -/
def index : WireName → Nat
  | .indexed index => index
  | .new _ => 0

def wire : WireName → Bytes
  | .indexed _ => []
  | .new name => name.wire

def read : WireName → LiteralName
  | .indexed index => .indexed (.finite index)
  | .new name => .new name.text

end WireName

namespace WireRepresentation

def wire : WireRepresentation → Bytes
  | .indexed index => setFlag 0x80 (integerOctets index 7)
  | .literal name value indexing =>
      setFlag indexing.flag (integerOctets name.index indexing.prefixBits) ++ (name.wire ++ value.wire)
  | .sizeUpdate size => setFlag 0x20 (integerOctets size 5)

def read : WireRepresentation → Representation
  | .indexed index => .indexed (.finite index)
  | .literal name value indexing => .literal name.read value.text indexing
  | .sizeUpdate size => .sizeUpdate (.finite size)

end WireRepresentation

/-- The octets of a header block. -/
def blockOctets (reps : List WireRepresentation) : Bytes := reps.flatMap WireRepresentation.wire

/-! ### Reading the octets back -/

theorem StringLiteral.decodeString_wire (l : StringLiteral) (before rest : Bytes) :
    decodeString (before ++ l.wire ++ rest) (.finite before.length) =
      .ok ⟨l.text, .finite (before.length + l.wire.length)⟩ := by
  have hdecode := decodeString_lengthOctets before l.coded rest l.huffman l.short
  have hbuf : before ++ lengthOctets l.huffman l.coded.length ++ l.coded ++ rest = before ++ l.wire ++ rest := by
    rw [StringLiteral.wire, List.append_assoc before]
  have hend : (before ++ lengthOctets l.huffman l.coded.length).length + l.coded.length = before.length + l.wire.length := by
    simp only [StringLiteral.wire, List.length_append, Nat.add_assoc]
  have hcoded := l.wellCoded
  dsimp only at hdecode
  cases hhuffman : l.huffman with
  | false =>
      rw [hhuffman, if_neg (by decide)] at hcoded
      rw [hhuffman] at hdecode hbuf hend
      rw [← hbuf, hdecode, hend, hcoded]
      rfl
  | true =>
      rw [hhuffman, if_pos rfl] at hcoded
      obtain ⟨padding, hpadding, hbits⟩ := hcoded
      rw [hhuffman] at hdecode hbuf hend
      rw [← hbuf, hdecode, huffmanDecode_of_bits _ rest hpadding hbits, ← hend]
      rfl

theorem decodeInteger_setFlag (before rest : Bytes) {n prefixBits : Nat} (hwidth : prefixBits ≤ 8) (hn : n < Js.exactBound)
    (flag : UInt8) (hflag : ∀ f < 2 ^ prefixBits, (f ||| flag.toNat) &&& (2 ^ prefixBits - 1) = f) :
    ∃ marked more, setFlag flag (integerOctets n prefixBits) = marked :: more ∧
      (∃ f < 2 ^ prefixBits, marked.toNat = f ||| flag.toNat) ∧
      decodeInteger (before ++ setFlag flag (integerOctets n prefixBits) ++ rest) before.length prefixBits =
        .ok ⟨.finite n, before.length + (setFlag flag (integerOctets n prefixBits)).length⟩ := by
  obtain ⟨first, more, hoctets, hfirst⟩ := integerOctets_cons n hwidth
  have hlt : first.toNat < 2 ^ prefixBits := by
    have := Nat.two_pow_pos prefixBits
    omega
  have hmarked : (first ||| flag).toNat = first.toNat ||| flag.toNat := UInt8.toNat_or first flag
  have hset : setFlag flag (integerOctets n prefixBits) = (first ||| flag) :: more := by rw [hoctets, setFlag]
  refine ⟨first ||| flag, more, hset, ⟨first.toNat, hlt, hmarked⟩, ?_⟩
  rw [hset]
  exact decodeInteger_integerOctets before rest hwidth hn hoctets (by rw [hmarked, hflag _ hlt])

theorem WireIndex.exact (index : WireIndex) : index.val < Js.exactBound := index.2.2.trans (by decide)

theorem WireName.exact (name : WireName) : name.index < Js.exactBound := by
  cases name with
  | indexed index => exact index.exact
  | new name => exact (by decide : 0 < Js.exactBound)

theorem readLiteralName_wire (name : WireName) (before rest : Bytes) :
    readLiteralName (before ++ name.wire ++ rest) ⟨.finite name.index, before.length⟩ =
      some (name.read, .finite (before.length + name.wire.length)) := by
  cases name with
  | indexed index =>
      have hpos : ¬ JsNat.finite index.val = .finite 0 := fun h => index.2.1.ne' (JsNat.finite.inj h)
      exact if_neg hpos
  | new name =>
      have hname := name.decodeString_wire before rest
      simp only [readLiteralName, WireName.index, if_true, WireName.wire, WireName.read, hname, Except.toOption, Option.map_some]

theorem LiteralIndexing.flag_bits (indexing : LiteralIndexing) : ∀ f < 2 ^ indexing.prefixBits,
    (f ||| indexing.flag.toNat) &&& (2 ^ indexing.prefixBits - 1) = f ∧
      (if (f ||| indexing.flag.toNat) &&& 0xc0 = 0x40 then 6 else 4) = indexing.prefixBits ∧
      (f ||| indexing.flag.toNat) &&& 0x80 = 0 ∧
      ((f ||| indexing.flag.toNat) &&& 0xc0 = 0x40 ↔ indexing = .incremental) ∧
      ((f ||| indexing.flag.toNat) &&& 0xe0 = 0x20 → indexing = .incremental) ∧
      ((f ||| indexing.flag.toNat) &&& 0xf0 = 0x00 ↔ indexing = .noIndexing) := by
  cases indexing <;> decide

theorem readLiteral_wire (name : WireName) (value : StringLiteral) (indexing : LiteralIndexing) (before rest : Bytes) :
    ∃ marked more, setFlag indexing.flag (integerOctets name.index indexing.prefixBits) = marked :: more ∧
      (∃ f < 2 ^ indexing.prefixBits, marked.toNat = f ||| indexing.flag.toNat) ∧
      readLiteral (before ++ (WireRepresentation.literal name value indexing).wire ++ rest) before.length marked indexing =
        some ((WireRepresentation.literal name value indexing).read,
          .finite (before.length + (WireRepresentation.literal name value indexing).wire.length)) := by
  have hwidth : indexing.prefixBits ≤ 8 := by cases indexing <;> decide
  obtain ⟨marked, more, hset, ⟨f, hf, hmarked⟩, hindex⟩ := decodeInteger_setFlag before (name.wire ++ value.wire ++ rest) hwidth
    name.exact indexing.flag fun f hf => (indexing.flag_bits f hf).1
  refine ⟨marked, more, hset, ⟨f, hf, hmarked⟩, ?_⟩
  generalize hfront : setFlag indexing.flag (integerOctets name.index indexing.prefixBits) = front at hset hindex
  have hwire : (WireRepresentation.literal name value indexing).wire = front ++ (name.wire ++ value.wire) := by
    rw [← hfront]
    rfl
  have hname := readLiteralName_wire name (before ++ front) (value.wire ++ rest)
  have hvalue := value.decodeString_wire (before ++ front ++ name.wire) rest
  have hbits : (if marked.toNat &&& 0xc0 = 0x40 then 6 else 4) = indexing.prefixBits := by
    rw [hmarked]
    exact (indexing.flag_bits f hf).2.1
  rw [hwire]
  simp only [List.append_assoc, List.length_append] at hindex hname hvalue ⊢
  simp only [readLiteral, hbits, hindex, hname, hvalue, Except.toOption, Option.bind_eq_bind, Option.bind_some, Option.pure_def,
    WireRepresentation.read, Nat.add_assoc]

theorem sizeUpdate_bits : ∀ f < 2 ^ 5, (f ||| (0x20 : UInt8).toNat) &&& (2 ^ 5 - 1) = f ∧ (f ||| (0x20 : UInt8).toNat) &&& 0x80 = 0 ∧
    (f ||| (0x20 : UInt8).toNat) &&& 0xc0 ≠ 0x40 ∧ (f ||| (0x20 : UInt8).toNat) &&& 0xe0 = 0x20 := by
  decide

theorem readRepresentation_sizeUpdate {buf : Bytes} {pos f : Nat} {marked : UInt8} {decoded : DecodedInteger} (hf : f < 2 ^ 5)
    (hmarked : marked.toNat = f ||| (0x20 : UInt8).toNat) (hsize : decodeInteger buf pos 5 = .ok decoded) :
    readRepresentation buf pos marked = some (.sizeUpdate decoded.value, .finite decoded.nextOffset) := by
  obtain ⟨-, hindexed, hincremental, hupdate⟩ := sizeUpdate_bits f hf
  rw [← hmarked] at hindexed hincremental hupdate
  rw [readRepresentation, if_neg (by rw [hindexed]; decide), if_neg hincremental, if_pos hupdate, hsize]
  rfl

/-- A representation reads back, wherever it stands. -/
theorem readRepresentation_wire (rep : WireRepresentation) (before rest : Bytes) :
    ∃ marked more, rep.wire = marked :: more ∧
      readRepresentation (before ++ rep.wire ++ rest) before.length marked =
        some (rep.read, .finite (before.length + rep.wire.length)) := by
  cases rep with
  | indexed index =>
      have hbits : ∀ f < 2 ^ 7, (f ||| (0x80 : UInt8).toNat) &&& (2 ^ 7 - 1) = f ∧ (f ||| (0x80 : UInt8).toNat) &&& 0x80 ≠ 0 := by
        decide
      obtain ⟨marked, more, hset, ⟨f, hf, hmarked⟩, hindex⟩ := decodeInteger_setFlag before rest (show 7 ≤ 8 by decide) index.exact 0x80
        fun f hf => (hbits f hf).1
      refine ⟨marked, more, hset, ?_⟩
      rw [readRepresentation, if_pos (by rw [hmarked]; exact (hbits f hf).2), WireRepresentation.wire, hindex]
      rfl
  | literal name value indexing =>
      obtain ⟨marked, more, hset, ⟨f, hf, hmarked⟩, hread⟩ := readLiteral_wire name value indexing before rest
      refine ⟨marked, more ++ (name.wire ++ value.wire), by rw [WireRepresentation.wire, hset, List.cons_append], ?_⟩
      obtain ⟨-, -, hindexed, hincremental, hsize, hplain⟩ := indexing.flag_bits f hf
      rw [← hmarked] at hindexed hincremental hsize hplain
      rw [readRepresentation, if_neg (by rw [hindexed]; decide)]
      cases indexing with
      | incremental => rw [if_pos (hincremental.mpr rfl), hread]
      | noIndexing =>
          rw [if_neg fun h => LiteralIndexing.noConfusion (hincremental.mp h), if_neg fun h => LiteralIndexing.noConfusion (hsize h),
            if_pos (hplain.mpr rfl), hread]
      | neverIndexed =>
          rw [if_neg fun h => LiteralIndexing.noConfusion (hincremental.mp h), if_neg fun h => LiteralIndexing.noConfusion (hsize h),
            if_neg fun h => LiteralIndexing.noConfusion (hplain.mp h), hread]
  | sizeUpdate size =>
      obtain ⟨marked, more, hset, ⟨f, hf, hmarked⟩, hsize⟩ := decodeInteger_setFlag before rest (by decide) (n := size)
        (size.2.trans (by decide)) 0x20 fun f hf => (sizeUpdate_bits f hf).1
      exact ⟨marked, more, hset, readRepresentation_sizeUpdate hf hmarked hsize⟩

/-- A block reads back as the representations it was written as. -/
theorem readFrom_blockOctets (before : Bytes) (reps : List WireRepresentation) :
    readFrom (before ++ blockOctets reps) before.length = some (reps.map WireRepresentation.read) := by
  induction reps generalizing before with
  | nil => exact readFrom_of_le (by simp [blockOctets])
  | cons rep reps ih =>
      obtain ⟨marked, more, hwire, hread⟩ := readRepresentation_wire rep before (blockOctets reps)
      have hblock : before ++ blockOctets (rep :: reps) = before ++ rep.wire ++ blockOctets reps := by
        rw [blockOctets, List.flatMap_cons, List.append_assoc]
        rfl
      have hlt : before.length < (before ++ rep.wire ++ blockOctets reps).length := by
        simp only [hwire, List.length_append, List.length_cons]
        omega
      have hoctet : (before ++ rep.wire ++ blockOctets reps)[before.length] = marked := by simp [hwire]
      have hrest := ih (before ++ rep.wire)
      rw [List.length_append] at hrest
      rw [hblock, readFrom_of_lt hlt, hoctet, hread, Option.bind_some]
      dsimp only
      rw [readAfter_finite, hrest]
      rfl

theorem readBlock_blockOctets (reps : List WireRepresentation) :
    readBlock (blockOctets reps) = some (reps.map WireRepresentation.read) := readFrom_blockOctets [] reps

/-! ### What a block means to its encoder -/

def rfcEntry (e : StaticEntry) : StaticEntry := if e.name = "status" then { e with name := ":status" } else e

/-- The static table of RFC 7541 Appendix A: where the source has `status` it has `:status`. -/
def rfcStaticTable : List StaticEntry := staticTable.map rfcEntry

/-- The dynamic table of RFC 7541 section 4, newest entry first. -/
structure PeerTable where
  entries : List DynamicEntry
  limit : Nat

/-- The newest entries that fit a size together. -/
def fitting (limit : Nat) : List DynamicEntry → List DynamicEntry
  | [] => []
  | e :: entries => if e.size ≤ limit then e :: fitting (limit - e.size) entries else []

namespace PeerTable

/-- An entry larger than the limit empties the table. -/
def add (p : PeerTable) (e : DynamicEntry) : PeerTable := { p with entries := fitting p.limit (e :: p.entries) }

def resize (p : PeerTable) (size : Nat) : PeerTable := ⟨fitting size p.entries, size⟩

def resolve (p : PeerTable) (index : Nat) : Option (String × String) :=
  if index ≤ staticTableLength then (rfcStaticTable[index - 1]?).map fun e => (e.name, e.value)
  else (p.entries[index - staticTableLength - 1]?).map fun e => (e.name, e.value)

def name (p : PeerTable) : WireName → Option String
  | .indexed index => (p.resolve index).map Prod.fst
  | .new name => some name.text

def apply (p : PeerTable) : WireRepresentation → Option (PeerTable × Option (String × String))
  | .indexed index => (p.resolve index).map fun field => (p, some field)
  | .literal name value indexing =>
      (p.name name).map fun name => (if indexing = .incremental then p.add ⟨name, value.text⟩ else p, some (name, value.text))
  | .sizeUpdate size => some (p.resize size, none)

/-- The header list a block means, if every index of it names an entry. -/
def fields (p : PeerTable) : List WireRepresentation → Option (List (String × String))
  | [] => some []
  | rep :: reps => (p.apply rep).bind fun (p, field) => (p.fields reps).map (field.toList ++ ·)

end PeerTable

theorem fitting_kept (limit : Nat) (entries : List DynamicEntry) : fitting limit entries <+: entries := by
  induction entries generalizing limit with
  | nil => exact List.prefix_rfl
  | cons e entries ih =>
      rw [fitting]
      split
      · exact (List.prefix_cons_inj e).mpr (ih _)
      · exact List.nil_prefix

theorem staticTable_status : ∀ (i : Nat) (h : i < staticTable.length), staticTable[i].name = "status" ↔ 7 ≤ i ∧ i ≤ 13 := by
  decide

/-! ### The two tables -/

/-- The index a representation names its field or the field's name by. -/
def WireRepresentation.index : WireRepresentation → Option Nat
  | .indexed index => some index
  | .literal (.indexed index) _ _ => some index
  | _ => none

/-- The representation uses one of the static entries 8 to 14. -/
def WireRepresentation.usesStaticStatus (rep : WireRepresentation) : Bool :=
  rep.index.any fun index => 8 ≤ index ∧ index ≤ 14

/-- An entry or a field on both sides, its name up to a relation. -/
def EntryRel (rel : String → String → Prop) (e e' : DynamicEntry) : Prop := rel e.name e'.name ∧ e.value = e'.value

def FieldRel (rel : String → String → Prop) (field : HeaderField) (field' : String × String) : Prop :=
  rel field.name field'.1 ∧ field.value = field'.2

/-- The decoder's and the peer's table hold the newest entries of one history, up to names. -/
def Mirrors (rel : String → String → Prop) (t : DynamicTable) (p : PeerTable) : Prop :=
  SharedHistory (EntryRel rel) t.entries p.entries

section Mirrors

variable {rel : String → String → Prop} (hrefl : ∀ name, rel name name) {t t' : DynamicTable} {p p' : PeerTable}

include hrefl in
theorem Mirrors.of_empty (h : t.entries = []) (p : PeerTable) : Mirrors rel t p := by
  rw [Mirrors, h]
  exact .of_nil (fun e => ⟨hrefl e.name, rfl⟩) p.entries

theorem Mirrors.add (h : Mirrors rel t p) {name name' : String} (hname : rel name name') (value : String) :
    Mirrors rel (t.add name value) (p.add ⟨name', value⟩) := by
  have hadded : SharedHistory (EntryRel rel) (⟨name, value⟩ :: t.entries) (⟨name', value⟩ :: p.entries) :=
    SharedHistory.cons h ⟨hname, rfl⟩
  exact hadded.forget (t.add_prefix name value) (fitting_kept _ _)

theorem Mirrors.setLimit (h : Mirrors rel t p) (size : Nat) : Mirrors rel (t.setLimit (.finite size)) (p.resize size) :=
  SharedHistory.forget h (t.setLimit_prefix _) (fitting_kept _ _)

theorem resolve_static {index : Nat} (hpos : 0 < index) (hstatic : index ≤ staticTableLength) (t : DynamicTable) (p : PeerTable) :
    ∃ e ∈ staticTable, resolveIndex (.finite index) t = some (.static e.name e.value) ∧
      p.resolve index = some ((rfcEntry e).name, e.value) ∧ (e.name = "status" ↔ 8 ≤ index ∧ index ≤ 14) := by
  have hlt : index - 1 < staticTable.length := by
    rw [staticTableLength] at hstatic
    omega
  have hget : staticTable[index - 1]? = some staticTable[index - 1] := List.getElem?_eq_getElem hlt
  refine ⟨staticTable[index - 1], List.getElem_mem hlt, ?_, ?_, ?_⟩
  · rw [resolveIndex, if_neg (by omega), if_pos hstatic, hget, Option.map_some]
  · rw [PeerTable.resolve, if_pos hstatic, rfcStaticTable, List.getElem?_map, hget]
    simp only [Option.map_some, rfcEntry]
    split <;> rfl
  · rw [staticTable_status _ hlt]
    omega

include hrefl in
/-- An index that resolves on both sides. -/
theorem Mirrors.resolve (h : Mirrors rel t p) {index : Nat} (hpos : 0 < index)
    (hstatus : 8 ≤ index ∧ index ≤ 14 → rel "status" ":status") {r : ResolvedHeader} {field : String × String}
    (ht : resolveIndex (.finite index) t = some r) (hp : p.resolve index = some field) :
    rel r.name field.1 ∧ r.value = field.2 := by
  by_cases hstatic : index ≤ staticTableLength
  · obtain ⟨e, -, ht', hp', hname⟩ := resolve_static hpos hstatic t p
    obtain rfl := Option.some.inj (ht'.symm.trans ht)
    obtain rfl := Option.some.inj (hp'.symm.trans hp)
    refine ⟨?_, rfl⟩
    show rel e.name (rfcEntry e).name
    rw [rfcEntry]
    split
    · rename_i hrenamed
      rw [hrenamed]
      exact hstatus (hname.mp hrenamed)
    · exact hrefl e.name
  · rw [resolveIndex, if_neg (by omega), if_neg hstatic] at ht
    rw [PeerTable.resolve, if_neg hstatic] at hp
    obtain ⟨e, he, rfl⟩ := Option.map_eq_some_iff.mp ht
    obtain ⟨e', he', rfl⟩ := Option.map_eq_some_iff.mp hp
    exact SharedHistory.get h he he'

include hrefl in
/-- One representation that means something on both sides. -/
theorem Mirrors.apply (h : Mirrors rel t p) {rep : WireRepresentation} (hstatus : rep.usesStaticStatus = true → rel "status" ":status")
    {field : Option HeaderField} {field' : Option (String × String)} (ht : rep.read.apply t = some (t', field))
    (hp : p.apply rep = some (p', field')) : List.Forall₂ (FieldRel rel) field.toList field'.toList ∧ Mirrors rel t' p' := by
  cases rep with
  | indexed index =>
      obtain ⟨r, hr, heq⟩ := Option.map_eq_some_iff.mp ht
      obtain ⟨f, hf, heq'⟩ := Option.map_eq_some_iff.mp hp
      have hindex := h.resolve hrefl index.2.1 (fun hrange => hstatus (by
        simpa [WireRepresentation.usesStaticStatus, WireRepresentation.index] using hrange)) hr hf
      simp only [Prod.mk.injEq] at heq heq'
      rw [← heq.1, ← heq.2, ← heq'.1, ← heq'.2]
      exact ⟨.cons hindex .nil, h⟩
  | literal name value indexing =>
      obtain ⟨n, hn, heq⟩ := Option.map_eq_some_iff.mp ht
      obtain ⟨n', hn', heq'⟩ := Option.map_eq_some_iff.mp hp
      have hname : rel n n' := by
        cases name with
        | indexed index =>
            obtain ⟨r, hr, rfl⟩ := Option.map_eq_some_iff.mp hn
            obtain ⟨f, hf, rfl⟩ := Option.map_eq_some_iff.mp hn'
            exact (h.resolve hrefl index.2.1 (fun hrange => hstatus (by
              simpa [WireRepresentation.usesStaticStatus, WireRepresentation.index] using hrange)) hr hf).1
        | new name =>
            obtain rfl := Option.some.inj hn
            obtain rfl := Option.some.inj hn'
            exact hrefl _
      simp only [Prod.mk.injEq] at heq heq'
      rw [← heq.1, ← heq.2, ← heq'.1, ← heq'.2]
      refine ⟨.cons ⟨hname, rfl⟩ .nil, ?_⟩
      split
      · exact h.add hname value.text
      · exact h
  | sizeUpdate size =>
      obtain ⟨rfl, rfl⟩ := Prod.mk.inj (Option.some.inj ht)
      obtain ⟨rfl, rfl⟩ := Prod.mk.inj (Option.some.inj hp)
      exact ⟨.nil, h.setLimit size⟩

include hrefl in
theorem Mirrors.fields (h : Mirrors rel t p) {reps : List WireRepresentation}
    (hstatus : ∀ rep ∈ reps, rep.usesStaticStatus = true → rel "status" ":status") {block : HeaderBlock}
    {fields : List (String × String)} (ht : applyAll t (reps.map WireRepresentation.read) = some block)
    (hp : p.fields reps = some fields) : List.Forall₂ (FieldRel rel) block fields := by
  induction reps generalizing t p block fields with
  | nil =>
      obtain rfl := Option.some.inj ht
      obtain rfl := Option.some.inj hp
      exact .nil
  | cons rep reps ih =>
      simp only [List.map_cons, applyAll, Option.bind_eq_some_iff, Option.map_eq_some_iff, Prod.exists] at ht
      simp only [PeerTable.fields, Option.bind_eq_some_iff, Option.map_eq_some_iff] at hp
      obtain ⟨t', field, happly, rest, hrest, rfl⟩ := ht
      obtain ⟨⟨p', field'⟩, happly', rest', hrest', rfl⟩ := hp
      obtain ⟨hfield, h'⟩ := h.apply hrefl (hstatus rep List.mem_cons_self) happly happly'
      exact List.rel_append hfield (ih h' (fun rep' hmem => hstatus rep' (List.mem_cons_of_mem _ hmem)) hrest hrest')

end Mirrors

/-! ### The status of a block -/

/-- The decoder may have `status` for the peer's `:status`. -/
def Renamed (name name' : String) : Prop := name = name' ∨ name = "status" ∧ name' = ":status"

theorem Renamed.refl (name : String) : Renamed name name := .inl rfl

/-- A representation that uses a static status entry is a `:status` field to the peer alone. -/
theorem usesStaticStatus_names {t t' : DynamicTable} {p p' : PeerTable} {rep : WireRepresentation} {field : Option HeaderField}
    {field' : Option (String × String)} (huses : rep.usesStaticStatus = true) (ht : rep.read.apply t = some (t', field))
    (hp : p.apply rep = some (p', field')) :
    field.map HeaderField.name = some "status" ∧ field'.map Prod.fst = some ":status" := by
  have hnames : ∀ index : WireIndex, 8 ≤ index.val ∧ index.val ≤ 14 → ∃ e ∈ staticTable,
      resolveIndex (.finite index) t = some (.static e.name e.value) ∧ p.resolve index = some (":status", e.value) ∧
        e.name = "status" := by
    intro index hrange
    have hstatic : index.val ≤ staticTableLength := by
      rw [staticTableLength_eq]
      omega
    obtain ⟨e, hmem, hresolve, hresolve', hname⟩ := resolve_static index.2.1 hstatic t p
    refine ⟨e, hmem, hresolve, ?_, hname.mpr hrange⟩
    rw [hresolve', rfcEntry, if_pos (hname.mpr hrange)]
  cases rep with
  | indexed index =>
      obtain ⟨e, -, hresolve, hresolve', hname⟩ := hnames index (by
        simpa [WireRepresentation.usesStaticStatus, WireRepresentation.index] using huses)
      simp only [WireRepresentation.read, Representation.apply, hresolve, Option.map_some, Option.some.injEq, Prod.mk.injEq] at ht
      simp only [PeerTable.apply, hresolve', Option.map_some, Option.some.injEq, Prod.mk.injEq] at hp
      rw [← ht.2, ← hp.2]
      exact ⟨congrArg some hname, rfl⟩
  | literal name value indexing =>
      cases name with
      | indexed index =>
          obtain ⟨e, -, hresolve, hresolve', hname⟩ := hnames index (by
            simpa [WireRepresentation.usesStaticStatus, WireRepresentation.index] using huses)
          simp only [WireRepresentation.read, WireName.read, Representation.apply, LiteralName.resolve, hresolve, Option.map_some,
            Option.some.injEq, Prod.mk.injEq] at ht
          simp only [PeerTable.apply, PeerTable.name, hresolve', Option.map_some, Option.some.injEq, Prod.mk.injEq] at hp
          rw [← ht.2, ← hp.2]
          exact ⟨congrArg some hname, rfl⟩
      | new name => exact absurd huses (by simp [WireRepresentation.usesStaticStatus, WireRepresentation.index])
  | sizeUpdate size => exact absurd huses (by simp [WireRepresentation.usesStaticStatus, WireRepresentation.index])

/-- Each use of a static status entry is a `:status` field the decoder misses. -/
theorem status_count {t : DynamicTable} {p : PeerTable} (h : Mirrors Renamed t p) {reps : List WireRepresentation}
    {block : HeaderBlock} {fields : List (String × String)}
    (ht : applyAll t (reps.map WireRepresentation.read) = some block) (hp : p.fields reps = some fields) :
    (block.filter fun field => field.name = ":status").length + (reps.filter WireRepresentation.usesStaticStatus).length ≤
      (fields.filter fun field => field.1 = ":status").length := by
  induction reps generalizing t p block fields with
  | nil =>
      obtain rfl := Option.some.inj ht
      exact Nat.zero_le _
  | cons rep reps ih =>
      simp only [List.map_cons, applyAll, Option.bind_eq_some_iff, Option.map_eq_some_iff, Prod.exists] at ht
      simp only [PeerTable.fields, Option.bind_eq_some_iff, Option.map_eq_some_iff] at hp
      obtain ⟨t', field, happly, rest, hrest, rfl⟩ := ht
      obtain ⟨⟨p', field'⟩, happly', rest', hrest', rfl⟩ := hp
      obtain ⟨hfield, h'⟩ := h.apply Renamed.refl (fun _ => .inr ⟨rfl, rfl⟩) happly happly'
      have hcount := ih h' hrest hrest'
      have hstep : (field.toList.filter fun field => field.name = ":status").length +
          (if rep.usesStaticStatus = true then 1 else 0) ≤ (field'.toList.filter fun field => field.1 = ":status").length := by
        split
        · rename_i huses
          obtain ⟨hname, hname'⟩ := usesStaticStatus_names huses happly happly'
          obtain ⟨f, rfl, hf⟩ := Option.map_eq_some_iff.mp hname
          obtain ⟨f', rfl, hf'⟩ := Option.map_eq_some_iff.mp hname'
          simp [hf, hf']
        · cases field with
          | none => exact Nat.zero_le _
          | some f =>
              cases field' with
              | none => exact absurd hfield (by simp)
              | some f' =>
                  obtain ⟨hrenamed, -⟩ := (List.forall₂_cons.mp hfield).1
                  rcases hrenamed with hsame | ⟨hstatus, -⟩
                  · simp only [Option.toList_some, List.filter_cons, hsame]
                    split <;> simp
                  · simp [hstatus]
      simp only [List.filter_append, List.length_append, List.filter_cons]
      split
      · rename_i huses
        rw [if_pos huses] at hstep
        simp only [List.length_cons]
        omega
      · omega

theorem fields_eq_of_forall₂ {block : HeaderBlock} {fields : List (String × String)} (h : List.Forall₂ (FieldRel Eq) block fields) :
    (block.map fun field => (field.name, field.value)) = fields := by
  induction h with
  | nil => rfl
  | cons hfield _ ih => rw [List.map_cons, ih, hfield.1, hfield.2]

/-- The decoder finds the peer's one `:status` field exactly when the peer does not use the static status
entries and every index resolves in a new table. -/
theorem decodeHeaders_status_iff {p : PeerTable} {reps : List WireRepresentation} {fields : List (String × String)} {status : String}
    (hfields : p.fields reps = some fields) (hstatus : (fields.filter fun field => field.1 = ":status") = [(":status", status)]) :
    (∃ headers, decodeHeaders (blockOctets reps) = .ok headers ∧ headers.value ":status" = some status) ↔
      (∀ rep ∈ reps, rep.usesStaticStatus = false) ∧ Resolves .initial (reps.map WireRepresentation.read) := by
  have hdecode := decodeHeaders_toOption (blockOctets reps)
  rw [HpackDecoder.headers_eq, readBlock_blockOctets, Option.bind_some] at hdecode
  change _ = Option.map headerMap (applyAll DynamicTable.initial _) at hdecode
  cases happly : applyAll .initial (reps.map WireRepresentation.read) with
  | none =>
      rw [happly] at hdecode
      constructor
      · rintro ⟨headers, hheaders, -⟩
        rw [hheaders] at hdecode
        exact absurd hdecode (by simp [Except.toOption])
      · rintro ⟨-, hresolves⟩
        rw [Resolves, happly] at hresolves
        exact absurd hresolves (by simp)
  | some block =>
      rw [happly, Option.map_some] at hdecode
      have hheaders := toOption_eq_some_iff.mp hdecode
      have hresolves : Resolves .initial (reps.map WireRepresentation.read) := by
        rw [Resolves, happly]
        rfl
      constructor
      · rintro ⟨headers, hheaders', hvalue⟩
        obtain rfl := Except.ok.inj (hheaders.symm.trans hheaders')
        refine ⟨fun rep hrep => ?_, hresolves⟩
        have hcount := status_count (.of_empty Renamed.refl rfl p) happly hfields
        rw [headerMap_value] at hvalue
        obtain ⟨field, hlast, -⟩ := Option.map_eq_some_iff.mp hvalue
        have hpos := List.length_pos_of_mem (List.mem_of_getLast? hlast)
        rw [hstatus, List.length_singleton] at hcount
        have hnone : (reps.filter WireRepresentation.usesStaticStatus).length = 0 := by omega
        exact Bool.eq_false_iff.mpr (List.filter_eq_nil_iff.mp (List.eq_nil_of_length_eq_zero hnone) rep hrep)
      · rintro ⟨hunused, -⟩
        refine ⟨_, hheaders, ?_⟩
        have hmirrors : Mirrors Eq DynamicTable.initial p := .of_empty (fun _ => rfl) rfl p
        have hsame := hmirrors.fields (fun _ => rfl) (fun rep hrep huses => by
          rw [hunused rep hrep] at huses
          exact absurd huses (by decide)) happly hfields
        rw [← fields_eq_of_forall₂ hsame, List.filter_map] at hstatus
        have hlast := congrArg (fun l => l.getLast?.map Prod.snd) hstatus
        simpa [headerMap_value, List.getLast?_map, Function.comp_def] using hlast

end BrowsercoreHttp2
