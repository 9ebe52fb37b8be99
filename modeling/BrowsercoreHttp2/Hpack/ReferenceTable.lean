import BrowsercoreHttp2.Hpack.DecoderTable
import BrowsercoreHttp2.Hpack.Peer

/-!
# The table of RFC 7541

The reference table evicts as section 4 says, and an entry larger than its limit empties it. The decoder's table
keeps such an entry. Until newer entries or a smaller limit push it out, the decoder holds one entry more than the
reference, behind the entries they share.
-/

namespace BrowsercoreHttp2

/-! ### Eviction -/

theorem entriesSize_append (entries entries' : List DynamicEntry) :
    entriesSize (entries ++ entries') = entriesSize entries + entriesSize entries' := by
  rw [entriesSize, List.map_append, List.sum_append, ← entriesSize, ← entriesSize]

theorem fitting_of_le {limit : Nat} {entries : List DynamicEntry} (h : entriesSize entries ≤ limit) : fitting limit entries = entries := by
  induction entries generalizing limit with
  | nil => rfl
  | cons e entries ih =>
      rw [entriesSize_cons] at h
      rw [fitting, if_pos (by omega), ih (by omega)]

theorem fitting_size (limit : Nat) (entries : List DynamicEntry) : entriesSize (fitting limit entries) ≤ limit := by
  induction entries generalizing limit with
  | nil => exact Nat.zero_le limit
  | cons e entries ih =>
      rw [fitting]
      split
      · have := ih (limit - e.size)
        rw [entriesSize_cons]
        omega
      · exact Nat.zero_le limit

/-- The oldest entry goes if it does not fit behind the others. -/
theorem fitting_concat (limit : Nat) (entries : List DynamicEntry) (e : DynamicEntry) :
    fitting limit (entries ++ [e]) = if entriesSize entries + e.size ≤ limit then entries ++ [e] else fitting limit entries := by
  split
  · rename_i hfits
    apply fitting_of_le
    rw [entriesSize_append, entriesSize_cons, entriesSize_nil]
    exact hfits
  · rename_i hfull
    induction entries generalizing limit with
    | nil =>
        rw [entriesSize_nil, Nat.zero_add] at hfull
        exact if_neg hfull
    | cons other entries ih =>
        rw [List.cons_append, fitting, fitting]
        split
        · rw [entriesSize_cons] at hfull
          rw [ih (limit - other.size) (by omega)]
        · rfl

/-- Of one entry behind others, what is left once they are evicted to fit a limit. -/
theorem fitting_behind (limit : Nat) (entries : List DynamicEntry) {extra : List DynamicEntry} {held : Option Nat}
    (hsizes : extra.map DynamicEntry.size = held.toList) :
    ∃ extra', fitting limit (entries ++ extra) = fitting limit entries ++ extra' ∧
      extra'.map DynamicEntry.size = (held.filter fun old => entriesSize entries + old ≤ limit).toList := by
  cases extra with
  | nil =>
      obtain rfl : held = none := Option.toList_eq_nil_iff.mp hsizes.symm
      exact ⟨[], by rw [List.append_nil, List.append_nil], rfl⟩
  | cons e extra =>
      cases held with
      | none => exact absurd hsizes (List.cons_ne_nil _ _)
      | some old =>
          obtain ⟨rfl, hnil⟩ := List.cons.inj hsizes
          obtain rfl := List.map_eq_nil_iff.mp hnil
          rw [fitting_concat, Option.filter_some]
          split
          · rename_i hfits
            rw [if_pos (decide_eq_true hfits), fitting_of_le (by omega)]
            exact ⟨[e], rfl, rfl⟩
          · rename_i hfull
            rw [if_neg (mt of_decide_eq_true hfull)]
            exact ⟨[], (List.append_nil _).symm, rfl⟩

/-- Evicting to fit a budget leaves the newest entries that fit it. -/
theorem DynamicTable.evictToFit_entries (t : DynamicTable) (budget : Nat) :
    (t.evictToFit (.finite budget)).entries = fitting budget t.entries := by
  fun_induction DynamicTable.evictToFit t (.finite budget) with
  | case1 t h ih =>
      have hlt : budget < entriesSize t.entries := by
        rw [← t.accounted]
        exact of_decide_eq_true h.1
      have hsplit := List.dropLast_append_getLast h.2
      have hfull : ¬ entriesSize t.entries.dropLast + (t.entries.getLast h.2).size ≤ budget := by
        rw [← hsplit, entriesSize_append, entriesSize_cons, entriesSize_nil] at hlt
        omega
      have hdropped := fitting_concat budget t.entries.dropLast (t.entries.getLast h.2)
      rw [hsplit, if_neg hfull] at hdropped
      rw [ih, hdropped]
  | case2 t h =>
      by_cases hempty : t.entries = []
      · rw [hempty, fitting]
      · have hfits : entriesSize t.entries ≤ budget := by
          rw [← t.accounted]
          by_contra hlt
          exact h ⟨decide_eq_true (Nat.lt_of_not_le hlt), hempty⟩
        exact (fitting_of_le hfits).symm

variable {t t' : DynamicTable} {p p' : PeerTable}

theorem DynamicEntry.size_pos (e : DynamicEntry) : 0 < e.size := by
  rw [size, tableEntryOverhead]
  omega

/-- An entry within the limit evicts as in the reference. An entry above it stays alone. -/
theorem DynamicTable.add_entries {limit : Nat} (hlimit : t.maxSize = .finite limit) (name value : String) :
    (t.add name value).entries =
      if (DynamicEntry.mk name value).size ≤ limit then fitting limit (⟨name, value⟩ :: t.entries) else [⟨name, value⟩] := by
  rw [DynamicTable.add, hlimit]
  simp only [JsNat.le, decide_eq_true_eq]
  split
  · exact DynamicTable.evictToFit_entries _ limit
  · refine (DynamicTable.evictToFit_entries _ _).trans ?_
    rw [fitting, if_pos le_rfl, Nat.sub_self]
    cases t.entries with
    | nil => rfl
    | cons other entries => rw [fitting, if_neg (Nat.not_le.mpr other.size_pos)]

theorem DynamicTable.setLimit_entries (t : DynamicTable) (limit : Nat) : (t.setLimit (.finite limit)).entries = fitting limit t.entries :=
  DynamicTable.evictToFit_entries _ limit

/-! ### The reference decoder -/

/-- The index a representation names its field or the field's name by. -/
def Representation.index : Representation → Option JsNat
  | .indexed index => some index
  | .literal (.indexed index) _ _ => some index
  | _ => none

namespace PeerTable

/-- The entry an index names: the static entries come first, the dynamic ones follow, newest first. -/
def locate (p : PeerTable) : JsNat → Option (String × String)
  | .finite index =>
      if index = 0 then none
      else if index ≤ staticTableLength then (staticTable[index - 1]?).map fun e => (e.name, e.value)
      else (p.entries[index - staticTableLength - 1]?).map fun e => (e.name, e.value)
  | _ => none

/-- The first index that names no entry. -/
def next (p : PeerTable) : JsNat := .finite (staticTableLength + p.entries.length + 1)

theorem locate_next (p : PeerTable) : p.locate p.next = none := by
  rw [next, locate, if_neg (by omega), if_neg (by omega), List.getElem?_eq_none (by omega), Option.map_none]

def literalName (p : PeerTable) : LiteralName → Option String
  | .indexed index => (p.locate index).map Prod.fst
  | .new name => some name

/-- The table and the field of a representation. An integer that is no longer a number is a decoding error. -/
def read (p : PeerTable) : Representation → Option (PeerTable × Option (String × String))
  | .indexed index => (p.locate index).map fun field => (p, some field)
  | .literal name value indexing =>
      (p.literalName name).map fun name => (if indexing = .incremental then p.add ⟨name, value⟩ else p, some (name, value))
  | .sizeUpdate (.finite size) => some (p.resize size, none)
  | .sizeUpdate _ => none

theorem read_index {p : PeerTable} {rep : Representation} {after : PeerTable × Option (String × String)} (h : p.read rep = some after) :
    rep.index ≠ some p.next := by
  intro hindex
  cases rep with
  | indexed index =>
      obtain rfl := Option.some.inj hindex
      rw [read, locate_next, Option.map_none] at h
      exact absurd h.symm (Option.some_ne_none after)
  | literal name value indexing =>
      cases name with
      | new name => exact absurd hindex.symm (Option.some_ne_none _)
      | indexed index =>
          obtain rfl := Option.some.inj hindex
          rw [read, literalName, locate_next, Option.map_none, Option.map_none] at h
          exact absurd h.symm (Option.some_ne_none after)
  | sizeUpdate size => exact absurd hindex.symm (Option.some_ne_none _)

def readAll (p : PeerTable) : List Representation → Option PeerTable
  | [] => some p
  | rep :: reps => (p.read rep).bind fun after => after.1.readAll reps

end PeerTable

/-- The field of a representation the decoder makes. -/
def HeaderField.pair (field : HeaderField) : String × String := (field.name, field.value)

/-- Every index of the representations resolves under both tables to the same field, or under neither. -/
def ResolvesAlike (t : DynamicTable) (p : PeerTable) : List Representation → Prop
  | [] => True
  | rep :: reps =>
      (rep.apply t).map (fun applied => applied.2.map HeaderField.pair) = (p.read rep).map Prod.snd ∧
        ∀ applied ∈ rep.apply t, ∀ after ∈ p.read rep, ResolvesAlike applied.1 after.1 reps

/-- Along these blocks every index resolves as under the reference table, and after each block that the reference
accepts the two tables are the same. -/
def MirrorsReference (d : HpackDecoder) (p : PeerTable) : List Bytes → Prop
  | [] => True
  | buf :: blocks => ∀ reps ∈ readBlock buf, ResolvesAlike d.dynamic p reps ∧ ∀ p' ∈ p.readAll reps,
      ((d.decode buf).1.dynamic.entries = p'.entries ∧ (d.decode buf).1.dynamic.maxSize = .finite p'.limit) ∧
        MirrorsReference (d.decode buf).1 p' blocks

/-! ### Entries that are left over -/

namespace PeerTable

/-- The size of the entry the decoder holds behind those of the reference table, after a representation: one that is
larger than the limit when it is added, until it does not fit behind the newer ones. -/
def leftOver (p : PeerTable) (held : Option Nat) : Representation → Option Nat
  | .literal name value .incremental =>
      (p.literalName name).elim held fun name =>
        let size := (DynamicEntry.mk name value).size
        if size ≤ p.limit then held.filter fun old => size + entriesSize p.entries + old ≤ p.limit else some size
  | .sizeUpdate (.finite size) => held.filter fun old => entriesSize p.entries + old ≤ size
  | _ => held

/-- No index names an entry that is left over, and by the end of the block none is. No size update is past the
numbers. -/
def Clears (p : PeerTable) (held : Option Nat) : List Representation → Prop
  | [] => held = none
  | rep :: reps =>
      (held ≠ none → rep.index ≠ some p.next) ∧
        (∀ size, rep = .sizeUpdate size → ∃ n, size = .finite n) ∧
          ∀ after ∈ p.read rep, Clears after.1 (p.leftOver held rep) reps

/-- Every block clears what it leaves over. -/
def ClearsAll (p : PeerTable) : List Bytes → Prop
  | [] => True
  | buf :: blocks => ∀ reps ∈ readBlock buf, p.Clears none reps ∧ ∀ p' ∈ p.readAll reps, ClearsAll p' blocks

end PeerTable

/-- The decoder holds what the reference holds, and behind it an entry of the size left over. -/
structure HeldBehind (t : DynamicTable) (p : PeerTable) (held : Option Nat) : Prop where
  limit : t.maxSize = .finite p.limit
  entries : ∃ extra, t.entries = p.entries ++ extra ∧ extra.map DynamicEntry.size = held.toList

namespace HeldBehind

variable {held : Option Nat}

theorem entries_eq_iff (h : HeldBehind t p held) : t.entries = p.entries ↔ held = none := by
  obtain ⟨extra, hentries, hsizes⟩ := h.entries
  rw [hentries, List.append_right_eq_self]
  constructor
  · rintro rfl
    exact Option.toList_eq_nil_iff.mp hsizes.symm
  · rintro rfl
    exact List.map_eq_nil_iff.mp hsizes

/-- The decoder and the reference find the same, unless the index names the entry left over. -/
theorem resolve (h : HeldBehind t p held) {index : JsNat} (hindex : held ≠ none → index ≠ p.next) :
    (resolveIndex index t).map (fun resolved => (resolved.name, resolved.value)) = p.locate index := by
  obtain ⟨extra, hentries, hsizes⟩ := h.entries
  cases index with
  | nan => rfl
  | infinity => rfl
  | finite index =>
      rw [resolveIndex, PeerTable.locate]
      by_cases hzero : index = 0
      · rw [if_pos (Nat.le_zero.mpr hzero), if_pos hzero, Option.map_none]
      rw [if_neg (mt Nat.le_zero.mp hzero), if_neg hzero]
      by_cases hstatic : index ≤ staticTableLength
      · rw [if_pos hstatic, if_pos hstatic, Option.map_map]
        rfl
      rw [if_neg hstatic, if_neg hstatic]
      simp only [DynamicTable.get, Nat.add_sub_cancel, Option.map_map, hentries]
      by_cases hshared : index - staticTableLength - 1 < p.entries.length
      · rw [List.getElem?_append_left hshared]
        rfl
      rw [List.getElem?_append_right (Nat.not_lt.mp hshared), List.getElem?_eq_none (Nat.not_lt.mp hshared), Option.map_none,
        Option.map_eq_none_iff, List.getElem?_eq_none_iff]
      have hlength : extra.length = held.toList.length := by rw [← hsizes, List.length_map]
      cases held with
      | none => exact hlength.le.trans (Nat.zero_le _)
      | some old =>
          have hne : index ≠ staticTableLength + p.entries.length + 1 := fun h =>
            hindex (Option.some_ne_none old) (congrArg JsNat.finite h)
          rw [hlength, Option.toList_some, List.length_singleton]
          omega

theorem resolve_next (h : HeldBehind t p held) (hheld : held ≠ none) : resolveIndex p.next t ≠ none := by
  obtain ⟨extra, hentries, hsizes⟩ := h.entries
  have hmore : extra ≠ [] := by
    rintro rfl
    exact hheld (Option.toList_eq_nil_iff.mp hsizes.symm)
  have hpos := List.length_pos_of_ne_nil hmore
  have hindex : staticTableLength + p.entries.length + 1 - staticTableLength - 1 = p.entries.length := by omega
  rw [PeerTable.next, resolveIndex, if_neg (by omega), if_neg (by omega)]
  simp only [DynamicTable.get, Nat.add_sub_cancel, hindex, hentries]
  rw [List.getElem?_append_right le_rfl, Nat.sub_self, List.getElem?_eq_getElem hpos, Option.map_some]
  exact Option.some_ne_none _

theorem resolve_name (h : HeldBehind t p held) {name : LiteralName} (hname : ∀ index, name = .indexed index → held ≠ none → index ≠ p.next) :
    name.resolve t = p.literalName name := by
  cases name with
  | new name => rfl
  | indexed index =>
      rw [LiteralName.resolve, PeerTable.literalName, ← h.resolve (hname index rfl), Option.map_map]
      rfl

/-- The decoder follows every representation the reference accepts. -/
theorem step (h : HeldBehind t p held) {rep : Representation} {field : Option (String × String)} (hread : p.read rep = some (p', field)) :
    ∃ t' made, rep.apply t = some (t', made) ∧ made.map HeaderField.pair = field ∧ HeldBehind t' p' (p.leftOver held rep) := by
  have hindex := PeerTable.read_index hread
  cases rep with
  | indexed index =>
      obtain ⟨located, hlocate, heq⟩ := Option.map_eq_some_iff.mp hread
      obtain ⟨rfl, rfl⟩ := Prod.mk.inj heq
      have hsame := h.resolve fun _ hnext => hindex (congrArg some hnext)
      rw [hlocate] at hsame
      obtain ⟨resolved, hresolve, rfl⟩ := Option.map_eq_some_iff.mp hsame
      refine ⟨t, some ⟨resolved.name, resolved.value, false, false⟩, ?_, rfl, h⟩
      rw [Representation.apply, hresolve, Option.map_some]
  | literal name value indexing =>
      obtain ⟨text, hname, heq⟩ := Option.map_eq_some_iff.mp hread
      obtain ⟨rfl, rfl⟩ := Prod.mk.inj heq
      have hresolve : name.resolve t = some text := by
        refine (h.resolve_name ?_).trans hname
        rintro index rfl - hnext
        exact hindex (congrArg some hnext)
      refine ⟨if indexing = .incremental then t.add text value else t, some ⟨text, value, indexing = .incremental, false⟩, ?_, rfl, ?_⟩
      · rw [Representation.apply, hresolve, Option.map_some]
      cases indexing with
      | noIndexing => exact h
      | neverIndexed => exact h
      | incremental =>
          rw [if_pos rfl, if_pos rfl]
          refine ⟨(t.add_maxSize text value).trans h.limit, ?_⟩
          obtain ⟨extra, hentries, hsizes⟩ := h.entries
          simp only [PeerTable.leftOver, hname, Option.elim_some]
          rw [DynamicTable.add_entries h.limit, PeerTable.add]
          split
          · rw [hentries, ← List.cons_append]
            exact fitting_behind p.limit (⟨text, value⟩ :: p.entries) hsizes
          · rename_i hlarge
            refine ⟨[⟨text, value⟩], ?_, rfl⟩
            rw [fitting, if_neg hlarge, List.nil_append]
  | sizeUpdate size =>
      cases size with
      | nan => exact absurd hread.symm (Option.some_ne_none _)
      | infinity => exact absurd hread.symm (Option.some_ne_none _)
      | finite size =>
          obtain ⟨rfl, rfl⟩ := Prod.mk.inj (Option.some.inj hread)
          refine ⟨_, _, rfl, rfl, t.setLimit_maxSize _, ?_⟩
          obtain ⟨extra, hentries, hsizes⟩ := h.entries
          rw [DynamicTable.setLimit_entries, PeerTable.resize, hentries]
          exact fitting_behind size p.entries hsizes

/-- A representation is taken alike unless its index names the entry left over or its size is past the numbers. -/
theorem alike_iff (h : HeldBehind t p held) (rep : Representation) :
    (rep.apply t).map (fun applied => applied.2.map HeaderField.pair) = (p.read rep).map Prod.snd ↔
      (held ≠ none → rep.index ≠ some p.next) ∧ ∀ size, rep = .sizeUpdate size → ∃ n, size = .finite n := by
  cases hread : p.read rep with
  | some after =>
      obtain ⟨t', made, happly, hfield, -⟩ := h.step hread
      rw [happly, Option.map_some, Option.map_some, hfield]
      refine iff_of_true rfl ⟨fun _ => PeerTable.read_index hread, ?_⟩
      rintro size rfl
      cases size with
      | finite n => exact ⟨n, rfl⟩
      | _ => exact absurd hread.symm (Option.some_ne_none after)
  | none =>
      rw [Option.map_none, Option.map_eq_none_iff]
      constructor
      · intro happly
        refine ⟨fun hheld hindex => ?_, ?_⟩
        · have hfound := h.resolve_next hheld
          cases rep with
          | indexed index =>
              obtain rfl := Option.some.inj hindex
              exact hfound (Option.map_eq_none_iff.mp happly)
          | literal name value indexing =>
              cases name with
              | new name => exact absurd hindex.symm (Option.some_ne_none _)
              | indexed index =>
                  obtain rfl := Option.some.inj hindex
                  exact hfound (Option.map_eq_none_iff.mp (Option.map_eq_none_iff.mp happly))
          | sizeUpdate size => exact absurd hindex.symm (Option.some_ne_none _)
        · rintro size rfl
          exact absurd happly (Option.some_ne_none _)
      · rintro ⟨hindex, hsize⟩
        cases rep with
        | indexed index =>
            rw [PeerTable.read, ← h.resolve fun hheld hnext => hindex hheld (congrArg some hnext), Option.map_eq_none_iff,
              Option.map_eq_none_iff] at hread
            rw [Representation.apply, hread, Option.map_none]
        | literal name value indexing =>
            rw [PeerTable.read, ← h.resolve_name, Option.map_eq_none_iff] at hread
            · rw [Representation.apply, hread, Option.map_none]
            · rintro index rfl hheld hnext
              exact hindex hheld (congrArg some hnext)
        | sizeUpdate size =>
            obtain ⟨n, rfl⟩ := hsize size rfl
            exact absurd hread (Option.some_ne_none _)

/-- A block is taken alike and leaves the same table exactly when it clears what it leaves over. -/
theorem clears_iff (h : HeldBehind t p held) (reps : List Representation) :
    (ResolvesAlike t p reps ∧ ∀ p' ∈ p.readAll reps, (applyUntil t reps).entries = p'.entries ∧ (applyUntil t reps).maxSize = .finite p'.limit) ↔
      p.Clears held reps := by
  induction reps generalizing t p held with
  | nil =>
      rw [PeerTable.Clears, ← h.entries_eq_iff]
      constructor
      · exact fun hsame => (hsame.2 p rfl).1
      · rintro hsame
        refine ⟨trivial, fun p' hp' => ?_⟩
        obtain rfl := Option.some.inj hp'
        exact ⟨hsame, h.limit⟩
  | cons rep reps ih =>
      rw [ResolvesAlike, PeerTable.Clears, h.alike_iff, PeerTable.readAll, and_assoc, and_assoc]
      refine and_congr_right fun _ => and_congr_right fun _ => ?_
      cases hread : p.read rep with
      | none => simp
      | some after =>
          obtain ⟨t', made, happly, -, hheld⟩ := h.step hread
          simp only [happly, applyUntil_cons happly, Option.mem_some_iff, forall_eq', Option.bind_some]
          exact ih hheld

end HeldBehind

theorem mirrorsReference_iff {d : HpackDecoder} {p : PeerTable} (h : HeldBehind d.dynamic p none) (blocks : List Bytes) :
    MirrorsReference d p blocks ↔ p.ClearsAll blocks := by
  induction blocks generalizing d p with
  | nil => exact Iff.rfl
  | cons buf blocks ih =>
      rw [MirrorsReference, PeerTable.ClearsAll]
      refine forall_congr' fun reps => forall_congr' fun hreads => ?_
      rw [d.decode_dynamic, readable_of_readBlock hreads, ← h.clears_iff, and_assoc]
      refine and_congr_right fun _ => ?_
      rw [← forall₂_and]
      refine forall_congr' fun p' => forall_congr' fun _ => and_congr_right fun ⟨hentries, hlimit⟩ => ?_
      apply ih
      rw [d.decode_dynamic, readable_of_readBlock hreads]
      exact ⟨hlimit, [], by rw [hentries, List.append_nil], rfl⟩

/-- For every table limit and every sequence of header blocks: the decoder's table is the reference table after each
block, and every index resolves alike, exactly when each block clears what it leaves over. -/
theorem mirrors_reference_iff (limit : Nat) (blocks : List Bytes) :
    MirrorsReference (.create (.finite limit)) ⟨[], limit⟩ blocks ↔ PeerTable.ClearsAll ⟨[], limit⟩ blocks :=
  mirrorsReference_iff ⟨rfl, [], rfl, rfl⟩ blocks

/-- An incremental literal `a: b`, 34 octets large. -/
def oversizedBlock : Bytes := [0x40, 1, 0x61, 1, 0x62]

/-- In a table of 33 octets the entry stays, and the next block resolves it by an index that names nothing. -/
theorem oversized_entry_diverges :
    ¬ MirrorsReference (.create (.finite 33)) ⟨[], 33⟩ [oversizedBlock] ∧
      ((HpackDecoder.create (.finite 33)).decode oversizedBlock).1.dynamic.entries = [⟨"a", "b"⟩] ∧
      (PeerTable.add ⟨[], 33⟩ ⟨"a", "b"⟩).entries = [] ∧
      (((HpackDecoder.create (.finite 33)).decode oversizedBlock).1.decode [0xbe]).2.toOption = some [⟨"a", "b", false, false⟩] ∧
      PeerTable.locate ⟨[], 33⟩ (.finite 62) = none := by
  have hreads : readBlock oversizedBlock = some [.literal (.new "a") "b" .incremental] := by decide +kernel
  have hkept : ((HpackDecoder.create (.finite 33)).decode oversizedBlock).1.dynamic.entries = [⟨"a", "b"⟩] := by decide +kernel
  have hempty : (PeerTable.add ⟨[], 33⟩ ⟨"a", "b"⟩).entries = [] := by decide
  refine ⟨fun h => ?_, hkept, hempty, by decide +kernel, by decide⟩
  have hsame := ((h _ hreads).2 _ rfl).1.1
  rw [hkept] at hsame
  exact absurd (hsame.trans hempty) (List.cons_ne_nil _ _)

end BrowsercoreHttp2
