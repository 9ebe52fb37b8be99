import BrowsercoreHttp2.Hpack.ReferenceTable
import BrowsercoreHttp2.Library.Runs

/-!
# The local limit of the table

The limit of the decoder's table is written by the local side and by size updates on the wire, through one setter
that does not compare the two. The local limit binds as long as no size update and no entry exceeds it.
-/

namespace BrowsercoreHttp2

/-! ### Turns -/

/-- One turn of the decoding loop: the representation, the field it makes and the table it leaves. -/
structure Turn where
  rep : Representation
  field : Option HeaderField
  table : DynamicTable

/-- The turns of a block, up to the first representation whose index does not resolve. -/
def turns (dynamic : DynamicTable) : List Representation → List Turn
  | [] => []
  | rep :: reps => (rep.apply dynamic).elim [] fun applied => ⟨rep, applied.2, applied.1⟩ :: turns applied.1 reps

variable {t t' : DynamicTable} {limit : Nat}

theorem turns_cons {rep : Representation} {field : Option HeaderField} (h : rep.apply t = some (t', field)) (reps : List Representation) :
    turns t (rep :: reps) = ⟨rep, field, t'⟩ :: turns t' reps := by
  rw [turns, h, Option.elim_some]

theorem applyUntil_of_turns {I : DynamicTable → Prop} {reps : List Representation} (hstart : I t) (h : ∀ turn ∈ turns t reps, I turn.table) :
    I (applyUntil t reps) := by
  induction reps generalizing t with
  | nil => exact hstart
  | cons rep reps ih =>
      cases happly : rep.apply t with
      | none =>
          rw [applyUntil, happly, Option.elim_none]
          exact hstart
      | some applied =>
          rw [turns_cons happly] at h
          rw [applyUntil_cons happly]
          exact ih (h _ List.mem_cons_self) fun turn hmem => h turn (List.mem_cons_of_mem _ hmem)

theorem turns_reps {reps : List Representation} {fields : HeaderBlock} (h : applyAll t reps = some fields) : (turns t reps).map Turn.rep = reps := by
  induction reps generalizing t fields with
  | nil => rfl
  | cons rep reps ih =>
      obtain ⟨applied, happly, rest⟩ := Option.bind_eq_some_iff.mp h
      obtain ⟨more, hmore, -⟩ := Option.map_eq_some_iff.mp rest
      rw [turns_cons happly, List.map_cons, ih hmore]

/-! ### Tables within a limit -/

/-- Neither the limit nor the size of the table exceeds this limit. -/
structure DynamicTable.Held (t : DynamicTable) (limit : Nat) : Prop where
  maxSize : t.maxSize.le (.finite limit) = true
  size : t.currentSize ≤ limit

theorem JsNat.le_finite_iff {size : JsNat} : size.le (.finite limit) = true ↔ ∃ n ≤ limit, size = .finite n := by
  cases size with
  | finite n => simp [JsNat.le]
  | _ => simp [JsNat.le]

theorem DynamicTable.held_create (limit : Nat) : (DynamicTable.create (.finite limit)).Held limit :=
  ⟨decide_eq_true le_rfl, Nat.zero_le limit⟩

theorem DynamicTable.held_setLimit_iff (t : DynamicTable) (size : JsNat) : (t.setLimit size).Held limit ↔ size.le (.finite limit) = true := by
  constructor
  · intro h
    rw [← t.setLimit_maxSize size]
    exact h.maxSize
  · intro h
    refine ⟨by rw [t.setLimit_maxSize size, h], ?_⟩
    obtain ⟨n, hn, rfl⟩ := JsNat.le_finite_iff.mp h
    rw [(t.setLimit _).accounted, t.setLimit_entries]
    exact (fitting_size n t.entries).trans hn

/-- An entry stays whatever its size. -/
theorem DynamicTable.Held.add_iff (h : t.Held limit) (name value : String) :
    (t.add name value).Held limit ↔ (DynamicEntry.mk name value).size ≤ limit := by
  obtain ⟨n, hn, hlimit⟩ := JsNat.le_finite_iff.mp h.maxSize
  have hmax : (t.add name value).maxSize.le (.finite limit) = true := by rw [t.add_maxSize, h.maxSize]
  have hsize : (t.add name value).Held limit ↔ entriesSize (t.add name value).entries ≤ limit := by
    rw [← (t.add name value).accounted]
    exact ⟨Held.size, fun hle => ⟨hmax, hle⟩⟩
  rw [hsize, t.add_entries hlimit]
  split
  · rename_i hfits
    exact iff_of_true ((fitting_size n _).trans hn) (hfits.trans hn)
  · rw [entriesSize_cons, entriesSize_nil, Nat.add_zero]

/-- The size a representation gives the table, or the entry it adds, is within a limit. -/
def Turn.Within (limit : Nat) (turn : Turn) : Prop :=
  match turn.rep with
  | .sizeUpdate size => size.le (.finite limit) = true
  | .literal _ _ .incremental => ∀ field ∈ turn.field, (DynamicEntry.mk field.name field.value).size ≤ limit
  | _ => True

theorem DynamicTable.Held.apply_iff (h : t.Held limit) {rep : Representation} {field : Option HeaderField}
    (happly : rep.apply t = some (t', field)) : t'.Held limit ↔ Turn.Within limit ⟨rep, field, t'⟩ := by
  cases rep with
  | indexed index =>
      obtain ⟨resolved, -, heq⟩ := Option.map_eq_some_iff.mp happly
      obtain ⟨rfl, -⟩ := Prod.mk.inj heq
      exact iff_of_true h trivial
  | literal name value indexing =>
      obtain ⟨text, -, heq⟩ := Option.map_eq_some_iff.mp happly
      obtain ⟨rfl, rfl⟩ := Prod.mk.inj heq
      cases indexing with
      | incremental =>
          rw [if_pos rfl, h.add_iff]
          simp [Turn.Within]
      | _ => exact iff_of_true h trivial
  | sizeUpdate size =>
      obtain ⟨rfl, -⟩ := Prod.mk.inj (Option.some.inj happly)
      exact t.held_setLimit_iff size

theorem DynamicTable.Held.turns_iff (h : t.Held limit) (reps : List Representation) :
    (∀ turn ∈ turns t reps, turn.table.Held limit) ↔ ∀ turn ∈ turns t reps, turn.Within limit := by
  induction reps generalizing t with
  | nil => exact iff_of_true (fun _ hmem => absurd hmem List.not_mem_nil) fun _ hmem => absurd hmem List.not_mem_nil
  | cons rep reps ih =>
      cases happly : rep.apply t with
      | none => rw [turns, happly, Option.elim_none]; simp
      | some applied =>
          rw [turns_cons happly, List.forall_mem_cons, List.forall_mem_cons]
          have hfirst := h.apply_iff happly
          constructor
          · exact fun ⟨hheld, hrest⟩ => ⟨hfirst.mp hheld, (ih hheld).mp hrest⟩
          · exact fun ⟨hwithin, hrest⟩ => ⟨hfirst.mpr hwithin, (ih (hfirst.mpr hwithin)).mpr hrest⟩

/-! ### Runs of a decoder -/

inductive DecoderOp where
  | decode (buf : Bytes)
  | setMaxTableSize (maxSize : Nat)

/-- A decoder and the limit that was last set locally. -/
structure LimitedDecoder where
  decoder : HpackDecoder
  limit : Nat

namespace LimitedDecoder

def create (limit : Nat) : LimitedDecoder := ⟨.create (.finite limit), limit⟩

def step (d : LimitedDecoder) : DecoderOp → LimitedDecoder
  | .decode buf => { d with decoder := (d.decoder.decode buf).1 }
  | .setMaxTableSize maxSize => ⟨d.decoder.setMaxTableSize (.finite maxSize), maxSize⟩

/-- The turns of an operation. -/
def opTurns (d : LimitedDecoder) : DecoderOp → List Turn
  | .decode buf => turns d.decoder.dynamic (readable buf)
  | .setMaxTableSize _ => []

/-- The block holds a size update above the limit, and decodes all the same. -/
def Accepts (d : LimitedDecoder) : DecoderOp → Prop
  | .decode buf => (∃ reps ∈ readBlock buf, ∃ size, .sizeUpdate size ∈ reps ∧ size.le (.finite d.limit) = false) ∧
      ∃ fields, (d.decoder.decode buf).2 = .ok fields
  | .setMaxTableSize _ => False

/-- The local limit binds during an operation and after it: it bounds the limit and the size of the table, and a block
with a size update above it is refused. -/
def Bound (d : LimitedDecoder) (op : DecoderOp) : Prop :=
  (∀ turn ∈ d.opTurns op, turn.table.Held d.limit) ∧ (d.step op).decoder.dynamic.Held (d.step op).limit ∧ ¬ d.Accepts op

/-- No size update and no entry of an operation exceeds the local limit. -/
def Within (d : LimitedDecoder) (op : DecoderOp) : Prop := ∀ turn ∈ d.opTurns op, turn.Within d.limit

theorem bound_iff {d : LimitedDecoder} (h : d.decoder.dynamic.Held d.limit) (op : DecoderOp) : d.Bound op ↔ d.Within op := by
  cases op with
  | setMaxTableSize maxSize =>
      refine iff_of_true ⟨fun _ hmem => absurd hmem List.not_mem_nil, ?_, id⟩ fun _ hmem => absurd hmem List.not_mem_nil
      exact (d.decoder.dynamic.held_setLimit_iff (.finite maxSize)).mpr (decide_eq_true le_rfl)
  | decode buf =>
      have hturns := h.turns_iff (readable buf)
      refine ⟨fun hbound => hturns.mp hbound.1, fun hwithin => ⟨hturns.mpr hwithin, ?_, ?_⟩⟩
      · rw [step, d.decoder.decode_dynamic]
        exact applyUntil_of_turns (I := fun t => t.Held d.limit) h (hturns.mpr hwithin)
      · rintro ⟨⟨reps, hreads, size, hmem, habove⟩, fields, hdecoded⟩
        have hread : readFrom buf 0 = some reps := hreads
        have happly : (d.decoder.decode buf).2.toOption = _ := decodeFrom_eq d.decoder.dynamic buf 0 []
        rw [hread, Option.bind_some, toOption_eq_some_iff.mpr hdecoded] at happly
        simp only [List.nil_append, Option.map_id'] at happly
        rw [← turns_reps happly.symm] at hmem
        obtain ⟨turn, hturn, hrep⟩ := List.mem_map.mp hmem
        have hsize := hwithin turn (by rw [opTurns, readable_of_readBlock hreads]; exact hturn)
        rw [Turn.Within, hrep] at hsize
        exact absurd (habove.symm.trans hsize) Bool.false_ne_true

end LimitedDecoder

open LimitedDecoder in
/-- For every limit and every sequence of `decode` and `setMaxTableSize`: the local limit binds throughout exactly
when throughout no size update and no added entry exceeds it. -/
theorem local_limit_binds_iff (limit : Nat) (ops : List DecoderOp) :
    Throughout step Bound (create limit) ops ↔ Throughout step Within (create limit) ops := by
  apply throughout_congr (I := fun d => d.decoder.dynamic.Held d.limit)
  · exact DynamicTable.held_create limit
  · exact fun d op h => bound_iff h op
  · exact fun d op _ hbound => hbound.2.1

/-- A block that holds a size update to 4096. -/
def growingBlock : Bytes := [0x3f, 0xe1, 0x1f]

open LimitedDecoder in
/-- A decoder whose table was switched off grows it at the peer's word. -/
theorem size_update_above_limit_accepted :
    ¬ Throughout step Bound (create 0) [.decode growingBlock] ∧
      ((create 0).step (.decode growingBlock)).decoder.dynamic.maxSize = .finite 4096 ∧
      ((create 0).decoder.decode growingBlock).2.toOption = some [] := by
  have hgrown : ((create 0).step (.decode growingBlock)).decoder.dynamic.maxSize = .finite 4096 := by decide +kernel
  refine ⟨fun h => ?_, hgrown, by decide +kernel⟩
  have hheld := h.1.2.1.maxSize
  rw [hgrown] at hheld
  exact absurd hheld (by decide)

end BrowsercoreHttp2
