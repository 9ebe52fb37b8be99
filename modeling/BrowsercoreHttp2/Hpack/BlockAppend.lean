import BrowsercoreHttp2.Hpack.DecoderTable
import BrowsercoreHttp2.Hpack.PrefixIntegers
import BrowsercoreHttp2.Hpack.Relocation

/-!
# Blocks one after the other

A block that decodes does so with octets behind it, and these decode as they would alone, if the loop goes on to them.
It does not where a value's length is not a number: that value ends the block, wherever it stands.
-/

namespace BrowsercoreHttp2

variable {buf : Bytes}

/-! ### Where a string's length is not a number -/

/-- The length that begins at an offset goes on to a group that is zero under an infinite weight. -/
def LengthNotANumber (buf : Bytes) (offset : Nat) : Prop :=
  ∃ first groups, buf[offset]? = some first ∧ first.toNat &&& 0x7f = 0x7f ∧ continuationGroups (buf.drop (offset + 1)) = some groups ∧
    ∃ i, 147 ≤ i ∧ groups[i]? = some 0

/-- Where the value of a literal begins, if a literal begins at an offset and its name reads. -/
def valueStart (buf : Bytes) (offset : Nat) (octet : UInt8) : Option Nat :=
  if octet.toNat &&& 0x80 ≠ 0 ∨ octet.toNat &&& 0xc0 ≠ 0x40 ∧ octet.toNat &&& 0xe0 = 0x20 then none
  else
    (decodeInteger buf offset (if octet.toNat &&& 0xc0 = 0x40 then 6 else 4)).toOption.bind fun nameIndexResult =>
      (readLiteralName buf nameIndexResult).bind fun (_, nameOffset) =>
        match nameOffset with
        | .finite start => some start
        | _ => none

theorem JsNat.add_eq_nan_iff (v w : JsNat) : v.add w = .nan ↔ v = .nan ∨ w = .nan := by
  have hnumber : ∀ n, JsNat.ofNat n ≠ .nan := by
    intro n
    rw [JsNat.ofNat]
    split
    · exact JsNat.noConfusion
    · exact JsNat.noConfusion
  cases v with
  | nan => exact ⟨fun _ => .inl rfl, fun _ => rfl⟩
  | infinity => cases w <;> simp [JsNat.add]
  | finite n =>
      cases w with
      | finite m => simp [JsNat.add, hnumber]
      | _ => simp [JsNat.add]

theorem JsNat.mul_twoPow_eq_nan_iff (group shift : Nat) :
    JsNat.mul (.finite group) (.twoPow shift) = .nan ↔ 1024 ≤ shift ∧ group = 0 := by
  by_cases hshift : shift < 1024
  · refine iff_of_false (fun h => ?_) (by omega)
    rw [JsNat.twoPow_of_lt hshift, JsNat.mul, JsNat.ofNat] at h
    split at h <;> exact JsNat.noConfusion h
  · rw [JsNat.twoPow, if_neg hshift]
    cases group with
    | zero => exact iff_of_true rfl ⟨Nat.not_lt.mp hshift, rfl⟩
    | succ group => exact iff_of_false (fun h => JsNat.noConfusion h) (by omega)

theorem accumulate_eq_nan_iff (value : JsNat) (shift : Nat) (groups : List Nat) :
    accumulate value shift groups = .nan ↔ value = .nan ∨ ∃ i, 1024 ≤ shift + 7 * i ∧ groups[i]? = some 0 := by
  induction groups generalizing value shift with
  | nil => simp [accumulate]
  | cons group groups ih =>
      rw [accumulate, ih, JsNat.add_eq_nan_iff, JsNat.mul_twoPow_eq_nan_iff, or_assoc]
      refine or_congr_right (Iff.intro (fun h => ?_) fun h => ?_)
      · rcases h with ⟨hshift, rfl⟩ | ⟨i, hshift, hgroup⟩
        · exact ⟨0, hshift, rfl⟩
        · exact ⟨i + 1, by omega, hgroup⟩
      · obtain ⟨i, hshift, hgroup⟩ := h
        cases i with
        | zero => exact .inl ⟨hshift, Option.some.inj hgroup⟩
        | succ i => exact .inr ⟨i, by omega, hgroup⟩

theorem lengthNotANumber_iff {offset : Nat} {lengthResult : DecodedInteger} (h : (decodeInteger buf offset 7).toOption = some lengthResult) :
    LengthNotANumber buf offset ↔ lengthResult.value = .nan := by
  have hdecode := toOption_eq_some_iff.mp h
  rw [decodeInteger] at hdecode
  rw [LengthNotANumber]
  cases hfirst : buf[offset]? with
  | none =>
      rw [hfirst] at hdecode
      exact absurd hdecode (by simp)
  | some first =>
      rw [hfirst] at hdecode
      dsimp only at hdecode
      split at hdecode
      · rename_i hsmall
        obtain rfl := Except.ok.inj hdecode
        refine iff_of_false (fun hnumber => ?_) JsNat.noConfusion
        obtain ⟨first', groups, hsome, hfull, _⟩ := hnumber
        obtain rfl := Option.some.inj hsome
        exact absurd hfull hsmall.ne
      · rename_i hlarge
        have hfull : first.toNat &&& 0x7f = 0x7f := Nat.le_antisymm Nat.and_le_right (Nat.not_lt.mp hlarge)
        have hvalue := decodeContinuation_eq buf (offset + 1) (.finite (2 ^ 7 - 1)) 0
        rw [hdecode] at hvalue
        obtain ⟨groups, hgroups, hsum⟩ := Option.map_eq_some_iff.mp hvalue.symm
        rw [← hsum, accumulate_eq_nan_iff, or_iff_right JsNat.noConfusion]
        refine Iff.intro (fun hnumber => ?_) fun hzeros => ?_
        · obtain ⟨_, groups', _, _, hgroups', i, hi, hzero⟩ := hnumber
          obtain rfl := Option.some.inj (hgroups.symm.trans hgroups')
          exact ⟨i, by omega, hzero⟩
        · obtain ⟨i, hi, hzero⟩ := hzeros
          exact ⟨first, groups, rfl, hfull, hgroups, i, by omega, hzero⟩

/-- Where the length is not a number, the string is empty and ends nowhere. -/
theorem readString_end {offset : Nat} {text : String} {next : JsNat} (h : readString buf (.finite offset) = some (text, next)) :
    (∃ n, next = .finite n) ↔ ¬ LengthNotANumber buf offset := by
  rw [readString_finite] at h
  obtain ⟨flagOctet, -, hread⟩ := Option.bind_eq_some_iff.mp h
  obtain ⟨⟨value, start⟩, hlength, hdata⟩ := Option.bind_eq_some_iff.mp hread
  rw [lengthNotANumber_iff hlength]
  rw [stringData] at hdata
  dsimp only at hdata
  split at hdata
  · exact absurd hdata.symm (Option.some_ne_none _)
  · rename_i hfits
    cases value with
    | nan =>
        obtain rfl := (Prod.mk.inj (Option.some.inj hdata)).2
        exact iff_of_false (not_exists.mpr fun _ => JsNat.noConfusion) fun h => h rfl
    | infinity => exact absurd rfl hfits
    | finite n =>
        refine iff_of_true ⟨start + n, ?_⟩ JsNat.noConfusion
        dsimp only at hdata
        split at hdata
        · obtain ⟨text', -, hsame⟩ := Option.map_eq_some_iff.mp hdata
          exact (Prod.mk.inj hsame).2.symm
        · exact (Prod.mk.inj (Option.some.inj hdata)).2.symm

theorem readLiteral_end {offset : Nat} {octet : UInt8} {indexing : LiteralIndexing} {rep : Representation} {next : JsNat}
    (hliteral : ¬ (octet.toNat &&& 0x80 ≠ 0 ∨ octet.toNat &&& 0xc0 ≠ 0x40 ∧ octet.toNat &&& 0xe0 = 0x20))
    (h : readLiteral buf offset octet indexing = some (rep, next)) :
    (∃ n, next = .finite n) ↔ ∀ start, valueStart buf offset octet = some start → ¬ LengthNotANumber buf start := by
  rw [readLiteral_eq] at h
  obtain ⟨nameIndexResult, hindex, h⟩ := Option.bind_eq_some_iff.mp h
  obtain ⟨⟨name, nameOffset⟩, hname, h⟩ := Option.bind_eq_some_iff.mp h
  obtain ⟨⟨value, next'⟩, hvalue, hsame⟩ := Option.map_eq_some_iff.mp h
  obtain rfl : next' = next := (Prod.mk.inj hsame).2
  rw [valueStart, if_neg hliteral, hindex, Option.bind_some, hname, Option.bind_some]
  cases nameOffset with
  | finite start => simpa using readString_end hvalue
  | nan => exact absurd hvalue.symm (Option.some_ne_none _)
  | infinity => exact absurd hvalue.symm (Option.some_ne_none _)

/-- A representation ends at a number unless it is a literal whose value has a length that is none. -/
theorem readRepresentation_end {offset : Nat} {octet : UInt8} {rep : Representation} {next : JsNat}
    (h : readRepresentation buf offset octet = some (rep, next)) :
    (∃ n, next = .finite n) ↔ ∀ start, valueStart buf offset octet = some start → ¬ LengthNotANumber buf start := by
  have hinteger : ∀ prefixBits (f : JsNat → Representation), (decodeInteger buf offset prefixBits).toOption.map
      (fun result => (f result.value, JsNat.finite result.nextOffset)) = some (rep, next) → ∃ n, next = .finite n := by
    intro prefixBits f hmap
    obtain ⟨result, -, hsame⟩ := Option.map_eq_some_iff.mp hmap
    exact ⟨result.nextOffset, (Prod.mk.inj hsame).2.symm⟩
  rw [readRepresentation] at h
  split at h
  · rename_i hindexed
    refine iff_of_true (hinteger 7 .indexed h) fun start hstart => ?_
    rw [valueStart, if_pos (.inl hindexed)] at hstart
    exact absurd hstart.symm (Option.some_ne_none _)
  · rename_i hindexed
    split at h
    · rename_i hincremental
      exact readLiteral_end (by simp [hindexed, hincremental]) h
    · rename_i hincremental
      split at h
      · rename_i hupdate
        refine iff_of_true (hinteger 5 .sizeUpdate h) fun start hstart => ?_
        rw [valueStart, if_pos (.inr ⟨hincremental, hupdate⟩)] at hstart
        exact absurd hstart.symm (Option.some_ne_none _)
      · rename_i hupdate
        have hliteral : ¬ (octet.toNat &&& 0x80 ≠ 0 ∨ octet.toNat &&& 0xc0 ≠ 0x40 ∧ octet.toNat &&& 0xe0 = 0x20) := by
          simp [hindexed, hupdate]
        split at h
        · exact readLiteral_end hliteral h
        · exact readLiteral_end hliteral h

/-! ### Blocks -/

/-- Where the representations of a block begin, from an offset on. -/
def startsFrom (buf : Bytes) (offset : Nat) : List Nat :=
  if h : offset < buf.length then
    match _hread : readRepresentation buf offset buf[offset] with
    | none => []
    | some (_, .finite next) => offset :: startsFrom buf next
    | some (_, _) => [offset]
  else []
termination_by buf.length - offset
decreasing_by
  have := readRepresentation_nextOffset _hread
  omega

/-- No value of the block from an offset on has a length that is not a number. -/
def LengthsFrom (buf : Bytes) (offset : Nat) : Prop :=
  ∀ start ∈ startsFrom buf offset, ∀ octet ∈ buf[start]?, ∀ value, valueStart buf start octet = some value → ¬ LengthNotANumber buf value

theorem startsFrom_of_le {offset : Nat} (h : buf.length ≤ offset) : startsFrom buf offset = [] := by
  rw [startsFrom, dif_neg (Nat.not_lt.mpr h)]

theorem startsFrom_of_read {offset : Nat} (hlt : offset < buf.length) {rep : Representation} {next : JsNat}
    (hread : readRepresentation buf offset buf[offset] = some (rep, next)) :
    startsFrom buf offset = offset :: match next with
      | .finite n => startsFrom buf n
      | _ => [] := by
  rw [startsFrom, dif_pos hlt]
  split
  · rename_i hnone
    exact absurd (hread.symm.trans hnone) (Option.some_ne_none _)
  · rename_i rep' n hfinite
    obtain rfl := (Prod.mk.inj (Option.some.inj (hread.symm.trans hfinite))).2
    rfl
  · rename_i rep' next' hnumber hother
    obtain rfl := (Prod.mk.inj (Option.some.inj (hread.symm.trans hother))).2
    cases next with
    | finite n => exact absurd rfl (hnumber n)
    | _ => rfl

theorem lengthsFrom_of_le {offset : Nat} (h : buf.length ≤ offset) : LengthsFrom buf offset := by
  intro start hstart
  rw [startsFrom_of_le h] at hstart
  exact absurd hstart List.not_mem_nil

/-- The lengths are numbers when the next representation ends at one and those after it have such lengths. -/
theorem lengthsFrom_iff {offset : Nat} (hlt : offset < buf.length) {rep : Representation} {next : JsNat}
    (hread : readRepresentation buf offset buf[offset] = some (rep, next)) :
    LengthsFrom buf offset ↔ ∃ n, next = .finite n ∧ LengthsFrom buf n := by
  have hend := readRepresentation_end hread
  have hoctet : ∀ octet ∈ buf[offset]?, octet = buf[offset] := fun octet hsome =>
    (Option.some.inj ((List.getElem?_eq_getElem hlt).symm.trans hsome)).symm
  rw [LengthsFrom, startsFrom_of_read hlt hread, List.forall_mem_cons]
  have hown : (∀ octet ∈ buf[offset]?, ∀ value, valueStart buf offset octet = some value → ¬ LengthNotANumber buf value) ↔
      ∃ n, next = .finite n := by
    rw [hend]
    refine Iff.intro (fun h => h _ (List.getElem?_eq_getElem hlt)) fun h octet hsome => ?_
    obtain rfl := hoctet octet hsome
    exact h
  rw [hown]
  cases next with
  | finite n => exact ⟨fun h => ⟨n, rfl, h.2⟩, fun ⟨m, hm, h⟩ => ⟨⟨n, rfl⟩, JsNat.finite.inj hm ▸ h⟩⟩
  | nan => exact iff_of_false (fun ⟨⟨_, h⟩, _⟩ => JsNat.noConfusion h) fun ⟨_, h, _⟩ => JsNat.noConfusion h
  | infinity => exact iff_of_false (fun ⟨⟨_, h⟩, _⟩ => JsNat.noConfusion h) fun ⟨_, h, _⟩ => JsNat.noConfusion h

theorem readFrom_of_octet {offset : Nat} {octet : UInt8} (h : buf[offset]? = some octet) :
    readFrom buf offset =
      (readRepresentation buf offset octet).bind fun (rep, next) => (readAfter buf next).map (rep :: ·) := by
  obtain ⟨hlt, hoctet⟩ := List.getElem?_eq_some_iff.mp h
  rw [readFrom_of_lt hlt, hoctet]

/-- The octets behind a block read as they do alone. -/
theorem readFrom_behind (before buf : Bytes) (offset : Nat) : readFrom (before ++ buf) (before.length + offset) = readFrom buf offset := by
  have hstands := StandsIn.append_right before buf
  have hsame : ∀ offset (hlt : offset < buf.length), readFrom (before ++ buf) (before.length + offset) =
      ((readRepresentation buf offset buf[offset]).map (movedEnd before.length)).bind fun (rep, next) =>
        (readAfter (before ++ buf) next).map (rep :: ·) := by
    intro offset hlt
    have hoctet : (before ++ buf)[before.length + offset]? = some buf[offset] := by
      rw [hstands.octet offset hlt, List.getElem?_eq_getElem hlt]
    rw [readFrom_of_octet hoctet, (hstands.representation offset buf[offset]).eq (List.length_append)]
  fun_induction readFrom buf offset with
  | case1 offset hlt hread => rw [hsame offset hlt, hread, Option.map_none, Option.bind_none]
  | case2 offset hlt rep next hread ih =>
      rw [hsame offset hlt, hread, Option.map_some, Option.bind_some, ← ih]
      rfl
  | case3 offset hlt rep next hnumber hread =>
      rw [hsame offset hlt, hread, Option.map_some, Option.bind_some]
      cases next with
      | finite n => exact absurd rfl (hnumber n)
      | _ => rfl
  | case4 offset hend =>
      apply readFrom_of_le
      rw [List.length_append]
      omega

theorem readRepresentation_inside {offset next : Nat} {octet : UInt8} {rep : Representation}
    (h : readRepresentation buf offset octet = some (rep, .finite next)) : next ≤ buf.length := by
  have hinteger : ∀ prefixBits (f : JsNat → Representation), (decodeInteger buf offset prefixBits).toOption.map
      (fun result => (f result.value, JsNat.finite result.nextOffset)) = some (rep, .finite next) → next ≤ buf.length := by
    intro prefixBits f hmap
    obtain ⟨result, hresult, hsame⟩ := Option.map_eq_some_iff.mp hmap
    have hinside := (decodeInteger_nextOffset (toOption_eq_some_iff.mp hresult)).2
    rwa [JsNat.finite.inj (Prod.mk.inj hsame).2] at hinside
  have hliteral : ∀ indexing, readLiteral buf offset octet indexing = some (rep, .finite next) → next ≤ buf.length := by
    intro indexing hread
    rw [readLiteral_eq] at hread
    obtain ⟨nameIndexResult, -, hread⟩ := Option.bind_eq_some_iff.mp hread
    obtain ⟨⟨name, nameOffset⟩, -, hread⟩ := Option.bind_eq_some_iff.mp hread
    obtain ⟨⟨value, next'⟩, hvalue, hsame⟩ := Option.map_eq_some_iff.mp hread
    obtain ⟨decoded, hdecoded, hsame'⟩ := Option.map_eq_some_iff.mp hvalue
    have hnext : decoded.nextOffset = .finite next := (Prod.mk.inj hsame').2.trans (Prod.mk.inj hsame).2
    obtain ⟨start, -, -, hinside⟩ := decodeString_nextOffset (toOption_eq_some_iff.mp hdecoded) hnext
    exact hinside
  rw [readRepresentation] at h
  split at h
  · exact hinteger 7 .indexed h
  · split at h
    · exact hliteral .incremental h
    · split at h
      · exact hinteger 5 .sizeUpdate h
      · split at h
        · exact hliteral .noIndexing h
        · exact hliteral .neverIndexed h

/-- Of a block that reads, all is read with octets behind it too, and these are read if every length is a number. -/
theorem readFrom_append {offset : Nat} {reps : List Representation} (hoffset : offset ≤ buf.length)
    (h : readFrom buf offset = some reps) (rest : Bytes) :
    (LengthsFrom buf offset → readFrom (buf ++ rest) offset = (readBlock rest).map (reps ++ ·)) ∧
      (¬ LengthsFrom buf offset → readFrom (buf ++ rest) offset = some reps) := by
  have hstands := StandsIn.append_left buf rest
  have hcarried : ∀ offset (hlt : offset < buf.length) rep next, readRepresentation buf offset buf[offset] = some (rep, next) →
      readFrom (buf ++ rest) offset = (readAfter (buf ++ rest) (next.past 0)).map (rep :: ·) := by
    intro offset hlt rep next hread
    have hoctet : (buf ++ rest)[offset]? = some buf[offset] := by
      rw [List.getElem?_append_left hlt, List.getElem?_eq_getElem hlt]
    have hfound := (hstands.representation offset buf[offset]).found _ (by rw [hread, Option.map_some])
    rw [Nat.zero_add] at hfound
    rw [readFrom_of_octet hoctet, hfound, Option.bind_some]
    rfl
  fun_induction readFrom buf offset generalizing reps with
  | case1 offset hlt hread => exact absurd h.symm (Option.some_ne_none _)
  | case2 offset hlt rep next hread ih =>
      obtain ⟨after, hafter, rfl⟩ := Option.map_eq_some_iff.mp h
      obtain ⟨hall, hsome⟩ := ih (readRepresentation_inside hread) hafter
      have hnext : (JsNat.finite next).past 0 = .finite next := by rw [JsNat.past_finite, Nat.zero_add]
      rw [hcarried offset hlt rep _ hread, hnext, readAfter_finite, lengthsFrom_iff hlt hread]
      refine ⟨fun hnumbers => ?_, fun hlengths => ?_⟩
      · obtain ⟨n, hn, hlengths⟩ := hnumbers
        obtain rfl := JsNat.finite.inj hn
        rw [hall hlengths, Option.map_map]
        rfl
      · rw [hsome fun hnumbers => hlengths ⟨next, rfl, hnumbers⟩]
        rfl
  | case3 offset hlt rep next hnumber hread =>
      obtain rfl := Option.some.inj h
      rw [hcarried offset hlt rep _ hread, lengthsFrom_iff hlt hread]
      refine ⟨fun hnumbers => ?_, fun _ => ?_⟩
      · obtain ⟨n, hn, _⟩ := hnumbers
        exact absurd hn (hnumber n)
      cases next with
      | finite n => exact absurd rfl (hnumber n)
      | _ => rfl
  | case4 offset hend =>
      obtain rfl := Option.some.inj h
      obtain rfl : offset = buf.length := Nat.le_antisymm hoffset (Nat.not_lt.mp hend)
      refine ⟨fun _ => ?_, fun hlengths => absurd (lengthsFrom_of_le le_rfl) hlengths⟩
      have hbehind := readFrom_behind buf rest 0
      rw [Nat.add_zero] at hbehind
      rw [hbehind, readBlock]
      exact (Option.map_id_apply).symm

/-! ### Decoding in two parts -/

/-- The fields of a block and the decoder it leaves, if it decodes. -/
def HpackDecoder.outcome (d : HpackDecoder) (buf : Bytes) : Option (HeaderBlock × HpackDecoder) :=
  (d.decode buf).2.toOption.map fun fields => (fields, (d.decode buf).1)

/-- The outcome of some octets and then of others. -/
def HpackDecoder.outcomes (d : HpackDecoder) (buf buf' : Bytes) : Option (HeaderBlock × HpackDecoder) :=
  (d.outcome buf).bind fun first => (first.2.outcome buf').map fun second => (first.1 ++ second.1, second.2)

theorem HpackDecoder.outcome_eq (d : HpackDecoder) (buf : Bytes) :
    d.outcome buf = (readBlock buf).bind fun reps => (applyAll d.dynamic reps).map fun fields =>
      (fields, ⟨applyUntil d.dynamic reps⟩) := by
  have hfields : (d.decode buf).2.toOption = (readBlock buf).bind (applyAll d.dynamic) := by
    have hdecode := decodeFrom_eq d.dynamic buf 0 []
    simp only [List.nil_append, Option.map_id'] at hdecode
    exact hdecode
  rw [outcome, hfields]
  cases hread : readBlock buf with
  | none => rfl
  | some reps =>
      have htable : (d.decode buf).1 = ⟨applyUntil d.dynamic reps⟩ := by
        rw [← readable_of_readBlock hread, ← d.decode_dynamic]
      rw [Option.bind_some, Option.bind_some, htable]

theorem applyAll_append (t : DynamicTable) (reps reps' : List Representation) :
    applyAll t (reps ++ reps') =
      (applyAll t reps).bind fun fields => (applyAll (applyUntil t reps) reps').map (fields ++ ·) := by
  induction reps generalizing t with
  | nil =>
      rw [List.nil_append, applyAll, Option.bind_some, applyUntil]
      exact Option.map_id_apply.symm
  | cons rep reps ih =>
      rw [List.cons_append, applyAll, applyAll, applyUntil]
      cases rep.apply t with
      | none => rfl
      | some applied =>
          obtain ⟨t', field⟩ := applied
          dsimp only [Option.bind_some, Option.elim_some]
          rw [ih]
          cases applyAll t' reps with
          | none => rfl
          | some fields =>
              simp only [Option.bind_some, Option.map_some, Option.map_map, Function.comp_def, List.append_assoc]

theorem applyUntil_append {t : DynamicTable} {reps : List Representation} {fields : HeaderBlock}
    (h : applyAll t reps = some fields) (reps' : List Representation) :
    applyUntil t (reps ++ reps') = applyUntil (applyUntil t reps) reps' := by
  induction reps generalizing t fields with
  | nil => rfl
  | cons rep reps ih =>
      obtain ⟨applied, happly, hrest⟩ := Option.bind_eq_some_iff.mp h
      obtain ⟨fields', hfields, -⟩ := Option.map_eq_some_iff.mp hrest
      rw [List.cons_append, applyUntil_cons happly, applyUntil_cons happly, ih hfields]

theorem outcome_method (d : HpackDecoder) : d.outcome [0x82] = some ([⟨":method", "GET", false, false⟩], d) := by
  have hread : readBlock [0x82] = some [.indexed (.finite 2)] := by decide +kernel
  rw [HpackDecoder.outcome_eq, hread]
  rfl

/-- A block that decodes, with any octets behind it, decodes as the block and then these octets exactly when no value of
the block has a length that is not a number. -/
theorem decode_append_iff (d : HpackDecoder) {buf : Bytes} {fields : HeaderBlock} (h : (d.decode buf).2 = .ok fields) :
    (∀ rest, d.outcome (buf ++ rest) = d.outcomes buf rest) ↔ LengthsFrom buf 0 := by
  have hblock : d.outcome buf = some (fields, (d.decode buf).1) := by rw [HpackDecoder.outcome, h]; rfl
  have hreads := hblock
  rw [d.outcome_eq] at hreads
  obtain ⟨reps, hread, happly⟩ := Option.bind_eq_some_iff.mp hreads
  obtain ⟨fields', hfields, hsame⟩ := Option.map_eq_some_iff.mp happly
  obtain ⟨rfl, hleft⟩ := Prod.mk.inj hsame
  refine Iff.intro (fun hall => ?_) fun hlengths rest => ?_
  · by_contra hlengths
    have hdropped := (readFrom_append (Nat.zero_le _) hread [0x82]).2 hlengths
    have hsplit := hall [0x82]
    rw [HpackDecoder.outcomes, hblock, Option.bind_some, outcome_method, d.outcome_eq, readBlock, hdropped, Option.bind_some,
      happly] at hsplit
    have hlonger := congrArg List.length (Prod.mk.inj (Option.some.inj hsplit)).1
    dsimp only at hlonger
    rw [List.length_append, List.length_singleton] at hlonger
    omega
  · have hboth := (readFrom_append (Nat.zero_le _) hread rest).1 hlengths
    rw [HpackDecoder.outcomes, hblock, Option.bind_some, d.outcome_eq, readBlock, hboth, ← hleft, HpackDecoder.outcome_eq]
    cases readBlock rest with
    | none => rfl
    | some reps' =>
        simp only [Option.map_some, Option.bind_some, applyAll_append, applyUntil_append hfields, hfields, Option.map_map]
        rfl

/-- A literal with a value of one octet, and whatever follows it. -/
theorem decode_append_iff_authority :
    (∀ rest, HpackDecoder.initial.outcome ([0x01, 0x01, 0x61] ++ rest) = HpackDecoder.initial.outcomes [0x01, 0x01, 0x61] rest) ↔
      LengthsFrom [0x01, 0x01, 0x61] 0 :=
  decode_append_iff .initial
    (show (HpackDecoder.initial.decode [0x01, 0x01, 0x61]).2 = .ok [⟨":authority", "a", false, false⟩] by decide +kernel)

/-- A value whose length goes on for 148 zero groups hides what follows the block. -/
def endlessValue : Bytes := [0x01, 0x7f] ++ List.replicate 147 0x80 ++ [0x00]

theorem endlessValue_hides :
    HpackDecoder.initial.outcome (endlessValue ++ [0x82]) ≠ HpackDecoder.initial.outcomes endlessValue [0x82] ∧
      (HpackDecoder.initial.decode endlessValue).2 = .ok [⟨":authority", "", false, false⟩] := by
  decide +kernel

end BrowsercoreHttp2
