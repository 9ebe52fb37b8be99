import BrowsercoreHttp2.Hpack.Helpers
import BrowsercoreHttp2.Library.History

/-!
# Representations

A header block is a sequence of representations, and where one ends and the next begins does not depend
on the dynamic table. So decoding is reading the representations off the octets and then applying them to
a table one by one, and it fails exactly when the octets do not read or an index does not resolve.
-/

namespace BrowsercoreHttp2

inductive LiteralName where
  | indexed (index : JsNat)
  | new (name : String)
  deriving DecidableEq

/-- One representation of RFC 7541 section 6, its strings decoded and its indices unresolved. -/
inductive Representation where
  | indexed (index : JsNat)
  | literal (name : LiteralName) (value : String) (indexing : LiteralIndexing)
  | sizeUpdate (size : JsNat)
  deriving DecidableEq

/-! ### Applying representations to a table -/

def LiteralName.resolve (dynamic : DynamicTable) : LiteralName → Option String
  | .indexed index => (resolveIndex index dynamic).map ResolvedHeader.name
  | .new name => some name

/-- The table and the field a representation leaves, if its index resolves. -/
def Representation.apply (dynamic : DynamicTable) : Representation → Option (DynamicTable × Option HeaderField)
  | .indexed index =>
      (resolveIndex index dynamic).map fun resolved =>
        (dynamic, some { name := resolved.name, value := resolved.value, indexing := false })
  | .literal name value indexing =>
      (name.resolve dynamic).map fun name =>
        (if indexing = .incremental then dynamic.add name value else dynamic,
          some { name, value, indexing := indexing = .incremental })
  | .sizeUpdate size => some (dynamic.setLimit size, none)

def applyAll (dynamic : DynamicTable) : List Representation → Option HeaderBlock
  | [] => some []
  | rep :: reps => (rep.apply dynamic).bind fun (dynamic, field) => (applyAll dynamic reps).map (field.toList ++ ·)

/-- Every index of the representations names an entry of the table as it then stands. -/
def Resolves (dynamic : DynamicTable) (reps : List Representation) : Prop := (applyAll dynamic reps).isSome

instance (dynamic : DynamicTable) (reps : List Representation) : Decidable (Resolves dynamic reps) :=
  inferInstanceAs (Decidable (_ = true))

/-! ### Reading representations -/

def readLiteralName (buf : Bytes) (nameIndexResult : DecodedInteger) : Option (LiteralName × JsNat) :=
  if nameIndexResult.value = .finite 0 then
    (decodeString buf (.finite nameIndexResult.nextOffset)).toOption.map fun strResult =>
      (.new strResult.value, strResult.nextOffset)
  else some (.indexed nameIndexResult.value, .finite nameIndexResult.nextOffset)

def readLiteral (buf : Bytes) (offset : Nat) (octet : UInt8) (indexing : LiteralIndexing) : Option (Representation × JsNat) := do
  let nameIndexResult ← (decodeInteger buf offset (if octet.toNat &&& 0xc0 = 0x40 then 6 else 4)).toOption
  let (name, nameOffset) ← readLiteralName buf nameIndexResult
  let valueResult ← (decodeString buf nameOffset).toOption
  return (.literal name valueResult.value indexing, valueResult.nextOffset)

def readRepresentation (buf : Bytes) (offset : Nat) (octet : UInt8) : Option (Representation × JsNat) :=
  if octet.toNat &&& 0x80 ≠ 0 then
    (decodeInteger buf offset 7).toOption.map fun result => (.indexed result.value, .finite result.nextOffset)
  else if octet.toNat &&& 0xc0 = 0x40 then readLiteral buf offset octet .incremental
  else if octet.toNat &&& 0xe0 = 0x20 then
    (decodeInteger buf offset 5).toOption.map fun result => (.sizeUpdate result.value, .finite result.nextOffset)
  else if octet.toNat &&& 0xf0 = 0x00 then readLiteral buf offset octet .noIndexing
  else readLiteral buf offset octet .neverIndexed

theorem toOption_eq_some_iff {ε α : Type} {e : Except ε α} {a : α} : e.toOption = some a ↔ e = .ok a := by
  cases e with
  | error e => exact iff_of_false (fun h => by cases h) fun h => by cases h
  | ok b => exact ⟨fun h => congrArg Except.ok (Option.some.inj h), fun h => congrArg some (Except.ok.inj h)⟩

/-- A literal decodes when it reads and its name resolves. -/
theorem decodeLiteral_eq (dynamic : DynamicTable) (buf : Bytes) (offset : Nat) (octet : UInt8) (indexing : LiteralIndexing) :
    (decodeLiteral dynamic buf offset octet indexing).toOption.map (fun (dynamic, field, next) => (dynamic, some field, next)) =
      (readLiteral buf offset octet indexing).bind fun (rep, next) =>
        (rep.apply dynamic).map fun (dynamic, field) => (dynamic, field, next) := by
  rw [decodeLiteral, readLiteral]
  dsimp only
  cases hindex : decodeInteger buf offset (if octet.toNat &&& 0xc0 = 0x40 then 6 else 4) with
  | error e => rfl
  | ok nameIndexResult =>
      by_cases hzero : nameIndexResult.value = .finite 0
      · cases hname : decodeString buf (.finite nameIndexResult.nextOffset) with
        | error e => simp [decodeLiteralName, readLiteralName, hzero, hname, Except.toOption]
        | ok strResult =>
            cases hvalue : decodeString buf strResult.nextOffset with
            | error e => simp [decodeLiteralName, readLiteralName, hzero, hname, hvalue, Except.toOption]
            | ok valueResult =>
                simp [decodeLiteralName, readLiteralName, hzero, hname, hvalue, Except.toOption, Representation.apply,
                  LiteralName.resolve]
      · cases hvalue : decodeString buf (.finite nameIndexResult.nextOffset) with
        | error e =>
            cases hresolve : resolveIndex nameIndexResult.value dynamic <;>
              simp [decodeLiteralName, readLiteralName, hzero, hresolve, hvalue, Except.toOption]
        | ok valueResult =>
            cases hresolve : resolveIndex nameIndexResult.value dynamic <;>
              simp [decodeLiteralName, readLiteralName, hzero, hresolve, hvalue, Except.toOption, Representation.apply,
                LiteralName.resolve]

/-- A representation decodes when it reads and its index resolves. -/
theorem decodeRepresentation_eq (dynamic : DynamicTable) (buf : Bytes) (offset : Nat) (octet : UInt8) :
    (decodeRepresentation dynamic buf offset octet).toOption =
      (readRepresentation buf offset octet).bind fun (rep, next) =>
        (rep.apply dynamic).map fun (dynamic, field) => (dynamic, field, next) := by
  have hliteral : ∀ indexing, ((decodeLiteral dynamic buf offset octet indexing).map
      fun (dynamic, field, next) => (dynamic, some field, next)).toOption =
      (readLiteral buf offset octet indexing).bind fun (rep, next) =>
        (rep.apply dynamic).map fun (dynamic, field) => (dynamic, field, next) := by
    intro indexing
    rw [← decodeLiteral_eq]
    cases decodeLiteral dynamic buf offset octet indexing <;> rfl
  rw [decodeRepresentation, readRepresentation]
  dsimp only
  split
  · cases hindex : decodeInteger buf offset 7 with
    | error e => rfl
    | ok result =>
        cases hresolve : resolveIndex result.value dynamic <;>
          simp [hresolve, Except.toOption, Representation.apply]
  · split
    · exact hliteral _
    · split
      · cases hindex : decodeInteger buf offset 5 with
        | error e => rfl
        | ok result => rfl
      · split
        · exact hliteral _
        · exact hliteral _

/-! ### Reading a block -/

theorem readLiteralName_nextOffset {buf : Bytes} {nameIndexResult : DecodedInteger} {name : LiteralName} {start : Nat}
    (h : readLiteralName buf nameIndexResult = some (name, .finite start)) : nameIndexResult.nextOffset ≤ start := by
  rw [readLiteralName] at h
  split at h
  · obtain ⟨strResult, hstr, heq⟩ := Option.map_eq_some_iff.mp h
    simp only [Prod.mk.injEq] at heq
    obtain ⟨begin, hbegin, hpast, -⟩ := decodeString_nextOffset (toOption_eq_some_iff.mp hstr) heq.2
    simp only [JsNat.finite.injEq] at hbegin
    omega
  · simp only [Option.some.injEq, Prod.mk.injEq, JsNat.finite.injEq] at h
    omega

theorem readLiteral_nextOffset {buf : Bytes} {offset next : Nat} {octet : UInt8} {indexing : LiteralIndexing}
    {rep : Representation} (h : readLiteral buf offset octet indexing = some (rep, .finite next)) : offset < next := by
  simp only [readLiteral, Option.bind_eq_bind, Option.bind_eq_some_iff, Option.pure_def, Option.some.injEq, Prod.mk.injEq] at h
  obtain ⟨nameIndexResult, hindex, ⟨name, nameOffset⟩, hname, valueResult, hvalue, -, hnext⟩ := h
  have hprogress := decodeInteger_nextOffset (toOption_eq_some_iff.mp hindex)
  obtain ⟨start, hstart, hlt, -⟩ := decodeString_nextOffset (toOption_eq_some_iff.mp hvalue) hnext
  obtain rfl : nameOffset = .finite start := hstart
  have hmiddle := readLiteralName_nextOffset hname
  omega

theorem readRepresentation_nextOffset {buf : Bytes} {offset next : Nat} {octet : UInt8} {rep : Representation}
    (h : readRepresentation buf offset octet = some (rep, .finite next)) : offset < next := by
  have hinteger : ∀ prefixBits (f : JsNat → Representation), (decodeInteger buf offset prefixBits).toOption.map
      (fun result => (f result.value, JsNat.finite result.nextOffset)) = some (rep, .finite next) → offset < next := by
    intro prefixBits f hmap
    obtain ⟨result, hresult, heq⟩ := Option.map_eq_some_iff.mp hmap
    have hprogress := decodeInteger_nextOffset (toOption_eq_some_iff.mp hresult)
    simp only [Prod.mk.injEq, JsNat.finite.injEq] at heq
    omega
  rw [readRepresentation] at h
  split at h
  · exact hinteger 7 .indexed h
  · split at h
    · exact readLiteral_nextOffset h
    · split at h
      · exact hinteger 5 .sizeUpdate h
      · split at h
        · exact readLiteral_nextOffset h
        · exact readLiteral_nextOffset h

/-- The representations of a block from an offset on, if the octets read. -/
def readFrom (buf : Bytes) (offset : Nat) : Option (List Representation) :=
  if h : offset < buf.length then
    match _hread : readRepresentation buf offset buf[offset] with
    | none => none
    | some (rep, .finite next) => (readFrom buf next).map (rep :: ·)
    | some (rep, _) => some [rep]
  else some []
termination_by buf.length - offset
decreasing_by
  have := readRepresentation_nextOffset _hread
  omega

def readBlock (buf : Bytes) : Option (List Representation) := readFrom buf 0

/-- What is left to read where a representation ends. -/
def readAfter (buf : Bytes) : JsNat → Option (List Representation)
  | .finite next => readFrom buf next
  | _ => some []

theorem readAfter_finite (buf : Bytes) (next : Nat) : readAfter buf (.finite next) = readFrom buf next := rfl

theorem readFrom_of_lt {buf : Bytes} {offset : Nat} (h : offset < buf.length) :
    readFrom buf offset =
      (readRepresentation buf offset buf[offset]).bind fun (rep, next) => (readAfter buf next).map (rep :: ·) := by
  rw [readFrom, dif_pos h]
  split
  · rename_i hread
    rw [hread, Option.bind_none]
  · rename_i rep next hread
    simp only [hread, Option.bind_some, readAfter_finite]
  · rename_i rep next hnext hread
    rw [hread, Option.bind_some]
    cases next with
    | finite next => exact absurd rfl (hnext next)
    | _ => rfl

theorem readFrom_of_le {buf : Bytes} {offset : Nat} (h : buf.length ≤ offset) : readFrom buf offset = some [] := by
  rw [readFrom, dif_neg (Nat.not_lt.mpr h)]

/-- Where a representation decodes, it reads and applies. -/
theorem decodeRepresentation_ok_iff {dynamic dynamic' : DynamicTable} {buf : Bytes} {offset : Nat} {octet : UInt8}
    {field : Option HeaderField} {next : JsNat} :
    decodeRepresentation dynamic buf offset octet = .ok (dynamic', field, next) ↔
      ∃ rep, readRepresentation buf offset octet = some (rep, next) ∧ rep.apply dynamic = some (dynamic', field) := by
  rw [← toOption_eq_some_iff, decodeRepresentation_eq, Option.bind_eq_some_iff]
  simp only [Option.map_eq_some_iff, Prod.mk.injEq, Prod.exists]
  constructor
  · rintro ⟨rep, next', hread, table, field', happly, rfl, rfl, rfl⟩
    exact ⟨rep, hread, happly⟩
  · rintro ⟨rep, hread, happly⟩
    exact ⟨rep, next, hread, dynamic', field, happly, rfl, rfl, rfl⟩

/-- Decoding is reading and then applying. -/
theorem decodeFrom_eq (dynamic : DynamicTable) (buf : Bytes) (offset : Nat) (out : HeaderBlock) :
    (decodeFrom dynamic buf offset out).2.toOption = ((readFrom buf offset).bind (applyAll dynamic)).map (out ++ ·) := by
  fun_induction decodeFrom dynamic buf offset out with
  | case1 dynamic offset out h e hdecode =>
      have hnone := decodeRepresentation_eq dynamic buf offset buf[offset]
      rw [hdecode] at hnone
      rw [readFrom_of_lt h]
      cases hread : readRepresentation buf offset buf[offset] with
      | none => rfl
      | some result =>
          obtain ⟨rep, next⟩ := result
          rw [hread, Option.bind_some] at hnone
          have happly : rep.apply dynamic = none := Option.map_eq_none_iff.mp hnone.symm
          cases hrest : readAfter buf next <;> simp [hrest, applyAll, happly, Except.toOption]
  | case2 dynamic offset out h dynamic' field next hdecode ih =>
      obtain ⟨rep, hread, happly⟩ := decodeRepresentation_ok_iff.mp hdecode
      rw [ih, readFrom_of_lt h]
      simp only [hread, Option.bind_some, readAfter_finite]
      cases readFrom buf next with
      | none => rfl
      | some reps =>
          simp only [Option.map_some, Option.bind_some, applyAll, happly, Option.map_map, Function.comp_def, List.append_assoc]
  | case3 dynamic offset out h dynamic' field next hnext hdecode =>
      obtain ⟨rep, hread, happly⟩ := decodeRepresentation_ok_iff.mp hdecode
      have hstop : readAfter buf next = some [] := by
        cases next with
        | finite next => exact absurd rfl (hnext next)
        | _ => rfl
      rw [readFrom_of_lt h]
      simp [hread, hstop, applyAll, happly, Except.toOption]
  | case4 dynamic offset out h =>
      rw [readFrom_of_le (Nat.not_lt.mp h)]
      simp [applyAll, Except.toOption]

/-! ### The fields of a block under two tables -/

/-- Two tables that hold the newest entries of one history. -/
def DynamicTable.Compatible (t u : DynamicTable) : Prop := SharedHistory (· = ·) t.entries u.entries

theorem DynamicTable.Compatible.of_empty {t : DynamicTable} (h : t.entries = []) (u : DynamicTable) : t.Compatible u := by
  rw [Compatible, h]
  exact .of_nil (fun _ => rfl) u.entries

theorem DynamicTable.Compatible.add {t u : DynamicTable} (h : t.Compatible u) (name value : String) :
    (t.add name value).Compatible (u.add name value) :=
  (SharedHistory.cons h rfl).forget (t.add_prefix name value) (u.add_prefix name value)

theorem DynamicTable.Compatible.setLimit {t u : DynamicTable} (h : t.Compatible u) (size : JsNat) :
    (t.setLimit size).Compatible (u.setLimit size) :=
  SharedHistory.forget h (t.setLimit_prefix size) (u.setLimit_prefix size)

variable {t u : DynamicTable}

/-- An index that resolves in both tables resolves to one entry. -/
theorem resolveIndex_agree (h : t.Compatible u) {index : JsNat} {r r' : ResolvedHeader}
    (ht : resolveIndex index t = some r) (hu : resolveIndex index u = some r') : r = r' := by
  unfold resolveIndex at ht hu
  split at ht
  · dsimp only at hu
    split at ht
    · simp at ht
    · rename_i hpos
      rw [if_neg hpos] at hu
      split at ht
      · rename_i hstatic
        rw [if_pos hstatic] at hu
        exact Option.some.inj (ht.symm.trans hu)
      · rename_i hstatic
        rw [if_neg hstatic] at hu
        obtain ⟨e, he, rfl⟩ := Option.map_eq_some_iff.mp ht
        obtain ⟨e', he', rfl⟩ := Option.map_eq_some_iff.mp hu
        rw [SharedHistory.get h he he']
  · simp at ht

theorem apply_agree (h : t.Compatible u) {rep : Representation} {t' u' : DynamicTable} {field field' : Option HeaderField}
    (ht : rep.apply t = some (t', field)) (hu : rep.apply u = some (u', field')) : field = field' ∧ t'.Compatible u' := by
  cases rep with
  | indexed index =>
      obtain ⟨r, hr, heq⟩ := Option.map_eq_some_iff.mp ht
      obtain ⟨r', hr', heq'⟩ := Option.map_eq_some_iff.mp hu
      simp only [Prod.mk.injEq] at heq heq'
      rw [← heq.1, ← heq.2, ← heq'.1, ← heq'.2, resolveIndex_agree h hr hr']
      exact ⟨rfl, h⟩
  | literal name value indexing =>
      obtain ⟨n, hn, heq⟩ := Option.map_eq_some_iff.mp ht
      obtain ⟨n', hn', heq'⟩ := Option.map_eq_some_iff.mp hu
      have hname : n = n' := by
        cases name with
        | indexed index =>
            obtain ⟨r, hr, rfl⟩ := Option.map_eq_some_iff.mp hn
            obtain ⟨r', hr', rfl⟩ := Option.map_eq_some_iff.mp hn'
            rw [resolveIndex_agree h hr hr']
        | new name => exact Option.some.inj (hn.symm.trans hn')
      simp only [Prod.mk.injEq] at heq heq'
      subst hname
      rw [← heq.1, ← heq.2, ← heq'.1, ← heq'.2]
      refine ⟨rfl, ?_⟩
      split
      · exact h.add n value
      · exact h
  | sizeUpdate size =>
      simp only [Representation.apply, Option.some.injEq, Prod.mk.injEq] at ht hu
      rw [← ht.1, ← ht.2, ← hu.1, ← hu.2]
      exact ⟨rfl, h.setLimit size⟩

theorem applyAll_agree (h : t.Compatible u) {reps : List Representation} {fields fields' : HeaderBlock}
    (ht : applyAll t reps = some fields) (hu : applyAll u reps = some fields') : fields = fields' := by
  induction reps generalizing t u fields fields' with
  | nil => exact Option.some.inj (ht.symm.trans hu)
  | cons rep reps ih =>
      simp only [applyAll, Option.bind_eq_some_iff, Option.map_eq_some_iff, Prod.exists] at ht hu
      obtain ⟨t', field, happly, rest, hrest, rfl⟩ := ht
      obtain ⟨u', field', happly', rest', hrest', rfl⟩ := hu
      obtain ⟨rfl, h'⟩ := apply_agree h happly happly'
      rw [ih h' hrest hrest']

/-! ### The map of a block -/

/-- The map a decoder makes of a block, if it decodes. -/
def HpackDecoder.headers (d : HpackDecoder) (buf : Bytes) : Option HeaderMap := (d.decode buf).2.toOption.map headerMap

theorem HpackDecoder.headers_eq (d : HpackDecoder) (buf : Bytes) :
    d.headers buf = ((readBlock buf).bind (applyAll d.dynamic)).map headerMap := by
  have h := decodeFrom_eq d.dynamic buf 0 []
  simp only [List.nil_append, Option.map_id'] at h
  exact congrArg (Option.map headerMap) h

theorem decodeHeaders_toOption (buf : Bytes) : (decodeHeaders buf).toOption = HpackDecoder.initial.headers buf := by
  rw [decodeHeaders, HpackDecoder.headers]
  split
  · rename_i e he
    rw [he]
    rfl
  · rename_i block hblock
    rw [hblock]
    rfl

theorem headers_eq_initial_iff (d : HpackDecoder) (buf : Bytes) :
    HpackDecoder.initial.headers buf = d.headers buf ↔
      ∀ reps, readBlock buf = some reps → (Resolves .initial reps ↔ Resolves d.dynamic reps) := by
  rw [HpackDecoder.headers_eq, HpackDecoder.headers_eq]
  cases readBlock buf with
  | none => simp
  | some reps =>
      simp only [Option.bind_some, Option.some.injEq, forall_eq', Resolves]
      change Option.map headerMap (applyAll .initial reps) = Option.map headerMap (applyAll d.dynamic reps) ↔ _
      cases hinitial : applyAll .initial reps with
      | none => cases applyAll d.dynamic reps <;> simp
      | some fields =>
          cases hshared : applyAll d.dynamic reps with
          | none => simp
          | some fields' => simp [applyAll_agree (.of_empty rfl d.dynamic) hinitial hshared]

end BrowsercoreHttp2
