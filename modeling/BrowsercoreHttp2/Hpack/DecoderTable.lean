import BrowsercoreHttp2.Hpack.Representation

/-!
# The table a decoder is left with

`decode` applies the representations of a block until one does not read or its index does not resolve. What was
applied by then stays, whether the block decodes or not.
-/

namespace BrowsercoreHttp2

/-- The representations of a block that read, up to the first that does not. -/
def readableFrom (buf : Bytes) (offset : Nat) : List Representation :=
  if h : offset < buf.length then
    match _hread : readRepresentation buf offset buf[offset] with
    | none => []
    | some (rep, .finite next) => rep :: readableFrom buf next
    | some (rep, _) => [rep]
  else []
termination_by buf.length - offset
decreasing_by
  have := readRepresentation_nextOffset _hread
  omega

def readable (buf : Bytes) : List Representation := readableFrom buf 0

/-- What is readable where a representation ends. -/
def readableAfter (buf : Bytes) : JsNat → List Representation
  | .finite next => readableFrom buf next
  | _ => []

theorem readableFrom_of_lt {buf : Bytes} {offset : Nat} (h : offset < buf.length) :
    readableFrom buf offset =
      (readRepresentation buf offset buf[offset]).elim [] fun (rep, next) => rep :: readableAfter buf next := by
  rw [readableFrom, dif_pos h]
  split
  · rename_i hread
    rw [hread, Option.elim_none]
  · rename_i rep next hread
    rw [hread, Option.elim_some]
    rfl
  · rename_i rep next hnext hread
    rw [hread, Option.elim_some]
    cases next with
    | finite next => exact absurd rfl (hnext next)
    | _ => rfl

theorem readableFrom_of_le {buf : Bytes} {offset : Nat} (h : buf.length ≤ offset) : readableFrom buf offset = [] := by
  rw [readableFrom, dif_neg (Nat.not_lt.mpr h)]

/-- In a block that reads, everything is readable. -/
theorem readableFrom_of_readFrom {buf : Bytes} {offset : Nat} {reps : List Representation} (h : readFrom buf offset = some reps) :
    readableFrom buf offset = reps := by
  fun_induction readFrom buf offset generalizing reps with
  | case1 offset hlt hread => exact absurd h.symm (Option.some_ne_none reps)
  | case2 offset hlt rep next hread ih =>
      obtain ⟨rest, hrest, rfl⟩ := Option.map_eq_some_iff.mp h
      rw [readableFrom_of_lt hlt, hread, Option.elim_some]
      exact congrArg (rep :: ·) (ih hrest)
  | case3 offset hlt rep next hnext hread =>
      obtain rfl := Option.some.inj h
      rw [readableFrom_of_lt hlt, hread, Option.elim_some]
      cases next with
      | finite next => exact absurd rfl (hnext next)
      | _ => rfl
  | case4 offset hge =>
      obtain rfl := Option.some.inj h
      exact readableFrom_of_le (Nat.not_lt.mp hge)

theorem readable_of_readBlock {buf : Bytes} {reps : List Representation} (h : readBlock buf = some reps) : readable buf = reps :=
  readableFrom_of_readFrom h

/-- Apply representations up to the first whose index does not resolve. -/
def applyUntil (dynamic : DynamicTable) : List Representation → DynamicTable
  | [] => dynamic
  | rep :: reps => (rep.apply dynamic).elim dynamic fun applied => applyUntil applied.1 reps

theorem applyUntil_cons {dynamic dynamic' : DynamicTable} {rep : Representation} {field : Option HeaderField}
    (h : rep.apply dynamic = some (dynamic', field)) (reps : List Representation) :
    applyUntil dynamic (rep :: reps) = applyUntil dynamic' reps := by
  rw [applyUntil, h, Option.elim_some]

theorem decodeFrom_dynamic (dynamic : DynamicTable) (buf : Bytes) (offset : Nat) (out : HeaderBlock) :
    (decodeFrom dynamic buf offset out).1 = applyUntil dynamic (readableFrom buf offset) := by
  fun_induction decodeFrom dynamic buf offset out with
  | case1 dynamic offset out h e hdecode =>
      have hnone := decodeRepresentation_eq dynamic buf offset buf[offset]
      rw [hdecode] at hnone
      rw [readableFrom_of_lt h]
      cases hread : readRepresentation buf offset buf[offset] with
      | none => rfl
      | some result =>
          rw [hread, Option.bind_some] at hnone
          have happly : result.1.apply dynamic = none := Option.map_eq_none_iff.mp hnone.symm
          rw [Option.elim_some, applyUntil, happly, Option.elim_none]
  | case2 dynamic offset out h dynamic' field next hdecode ih =>
      obtain ⟨rep, hread, happly⟩ := decodeRepresentation_ok_iff.mp hdecode
      rw [ih, readableFrom_of_lt h, hread, Option.elim_some, applyUntil_cons happly]
      rfl
  | case3 dynamic offset out h dynamic' field next hnext hdecode =>
      obtain ⟨rep, hread, happly⟩ := decodeRepresentation_ok_iff.mp hdecode
      have hstop : readableAfter buf next = [] := by
        cases next with
        | finite next => exact absurd rfl (hnext next)
        | _ => rfl
      rw [readableFrom_of_lt h, hread, Option.elim_some, applyUntil_cons happly, hstop, applyUntil]
  | case4 dynamic offset out h => rw [readableFrom_of_le (Nat.not_lt.mp h), applyUntil]

theorem HpackDecoder.decode_dynamic (d : HpackDecoder) (buf : Bytes) : (d.decode buf).1.dynamic = applyUntil d.dynamic (readable buf) :=
  decodeFrom_dynamic d.dynamic buf 0 []

end BrowsercoreHttp2
