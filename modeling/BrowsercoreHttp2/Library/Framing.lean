import Mathlib.Data.List.Basic

/-!
# Self-delimiting records in a chunked stream

A record starts with a header of fixed length that tells how long the record is. What records a stream
holds depends on the stream alone: a reader that takes the stream in chunks, keeping what it read beyond
a record for the next one, cuts off the same records however the chunks were cut.
-/

namespace BrowsercoreHttp2

structure Framing (α : Type) where
  headerLength : Nat
  /-- The length of a record, told by its header. -/
  total : List α → Nat
  headerLength_pos : 0 < headerLength
  headerLength_le_total : ∀ bs, headerLength ≤ total bs
  total_append : ∀ bs rest, headerLength ≤ bs.length → total (bs ++ rest) = total bs

/-- Append chunks to a buffer until it holds `need` items. -/
def topUp {α : Type} (need : Nat) (buffer : List α) : List (List α) → Option (List α × List (List α))
  | [] => if need ≤ buffer.length then some (buffer, []) else none
  | chunk :: chunks =>
      if need ≤ buffer.length then some (buffer, chunk :: chunks) else topUp need (buffer ++ chunk) chunks

/-- Topping up loses nothing and stops only when the stream is too short. -/
theorem topUp_spec {α : Type} (need : Nat) (buffer : List α) (chunks : List (List α)) :
    (topUp need buffer chunks = none ∧ (buffer ++ chunks.flatten).length < need) ∨
      ∃ extra left, topUp need buffer chunks = some (buffer ++ extra, left) ∧ need ≤ (buffer ++ extra).length ∧
        extra ++ left.flatten = chunks.flatten := by
  induction chunks generalizing buffer with
  | nil =>
      rw [topUp]
      split
      · rename_i henough
        exact .inr ⟨[], [], by rw [List.append_nil], by rwa [List.append_nil], rfl⟩
      · rename_i hshort
        refine .inl ⟨rfl, ?_⟩
        rw [List.flatten_nil, List.append_nil]
        omega
  | cons chunk chunks ih =>
      rw [topUp]
      split
      · rename_i henough
        exact .inr ⟨[], chunk :: chunks, by rw [List.append_nil], by rwa [List.append_nil], rfl⟩
      · rcases ih (buffer ++ chunk) with ⟨hnone, hshort⟩ | ⟨extra, left, hsome, henough, hflat⟩
        · refine .inl ⟨hnone, ?_⟩
          rwa [List.flatten_cons, ← List.append_assoc]
        · refine .inr ⟨chunk ++ extra, left, ?_, ?_, ?_⟩
          · rw [hsome, List.append_assoc]
          · rwa [← List.append_assoc]
          · rw [List.append_assoc, hflat, List.flatten_cons]

namespace Framing

variable {α : Type} (c : Framing α)

/-- The first record of a stream and what follows it, if the stream holds all of it. -/
def next (bs : List α) : Option (List α × List α) :=
  if c.headerLength ≤ bs.length ∧ c.total bs ≤ bs.length then some (bs.take (c.total bs), bs.drop (c.total bs)) else none

/-- One complete record and nothing else. -/
def IsRecord (bs : List α) : Prop := bs.length = c.total bs

theorem next_length {bs record rest : List α} (h : c.next bs = some (record, rest)) : rest.length < bs.length := by
  rw [next] at h
  split at h
  · rename_i hcomplete
    obtain ⟨-, rfl⟩ := Prod.mk.inj (Option.some.inj h)
    have := c.headerLength_pos
    have := c.headerLength_le_total bs
    rw [List.length_drop]
    omega
  · simp at h

theorem next_record {bs : List α} (h : c.IsRecord bs) (rest : List α) : c.next (bs ++ rest) = some (bs, rest) := by
  have hheader : c.headerLength ≤ bs.length := h ▸ c.headerLength_le_total bs
  have hlong : bs.length ≤ (bs ++ rest).length := by
    rw [List.length_append]
    omega
  rw [next, c.total_append bs rest hheader, ← h, if_pos ⟨Nat.le_trans hheader hlong, hlong⟩, List.take_left, List.drop_left]

/-- The complete records of a stream, in order. -/
def records (bs : List α) : List (List α) :=
  match _hnext : c.next bs with
  | none => []
  | some (record, rest) => record :: records rest
termination_by bs.length
decreasing_by exact c.next_length _hnext

theorem records_of_none {bs : List α} (h : c.next bs = none) : c.records bs = [] := by
  rw [records]
  split
  · rfl
  · rename_i hsome
    simp [h] at hsome

theorem records_of_some {bs record rest : List α} (h : c.next bs = some (record, rest)) :
    c.records bs = record :: c.records rest := by
  rw [records]
  split
  · rename_i hnone
    simp [h] at hnone
  · rename_i record' rest' hsome
    obtain ⟨rfl, rfl⟩ := Prod.mk.inj (Option.some.inj (h.symm.trans hsome))
    rfl

theorem records_flatten {rs : List (List α)} (h : ∀ r ∈ rs, c.IsRecord r) : c.records rs.flatten = rs := by
  induction rs with
  | nil =>
      refine c.records_of_none ?_
      have := c.headerLength_pos
      exact if_neg fun hcomplete => absurd hcomplete.1 (by rw [List.flatten_nil, List.length_nil]; omega)
  | cons r rs ih =>
      obtain ⟨hr, hrs⟩ := List.forall_mem_cons.mp h
      rw [List.flatten_cons, c.records_of_some (c.next_record hr rs.flatten), ih hrs]

/-! ### Cutting a stream that is still arriving -/

theorem next_splits {bs record rest : List α} (h : c.next bs = some (record, rest)) : c.IsRecord record ∧ record ++ rest = bs := by
  rw [next] at h
  split at h
  · rename_i hcomplete
    obtain ⟨hrecord, hrest⟩ := Prod.mk.inj (Option.some.inj h)
    have hlength : record.length = c.total bs := by
      rw [← hrecord, List.length_take]
      exact Nat.min_eq_left hcomplete.2
    have hsplit : record ++ rest = bs := by rw [← hrecord, ← hrest, List.take_append_drop]
    have hheader : c.headerLength ≤ record.length := hlength ▸ c.headerLength_le_total bs
    refine ⟨?_, hsplit⟩
    rw [IsRecord, ← c.total_append record rest hheader, hsplit, hlength]
  · simp at h

/-- The records that have been cut off the front of a stream, and what is left of it. -/
structure Cuts (stream : List α) (taken : List (List α)) (left : List α) : Prop where
  stream : taken.flatten ++ left = stream
  records : ∀ record ∈ taken, c.IsRecord record

namespace Cuts

variable {c} {stream left : List α} {taken : List (List α)}

theorem start : c.Cuts [] [] [] := ⟨rfl, fun _ hmem => absurd hmem List.not_mem_nil⟩

theorem arrive (h : c.Cuts stream taken left) (chunk : List α) : c.Cuts (stream ++ chunk) taken (left ++ chunk) where
  stream := by rw [← List.append_assoc, h.stream]
  records := h.records

theorem take (h : c.Cuts stream taken left) {record rest : List α} (hnext : c.next left = some (record, rest)) :
    c.Cuts stream (taken ++ [record]) rest := by
  obtain ⟨hrecord, hsplit⟩ := c.next_splits hnext
  refine ⟨?_, List.forall_mem_append.mpr ⟨h.records, List.forall_mem_singleton.mpr hrecord⟩⟩
  rw [List.flatten_append, List.flatten_singleton, List.append_assoc, hsplit, h.stream]

/-- The records cut off are the first ones of the stream, and the others are those of what is left. -/
theorem records_eq (h : c.Cuts stream taken left) : c.records stream = taken ++ c.records left := by
  rw [← h.stream]
  have hrecords := h.records
  clear h
  induction taken with
  | nil => rfl
  | cons record taken ih =>
      obtain ⟨hrecord, hrest⟩ := List.forall_mem_cons.mp hrecords
      rw [List.flatten_cons, List.append_assoc, c.records_of_some (c.next_record hrecord _), ih hrest, List.cons_append]

end Cuts

/-- Read one record: first its header, then the rest, keeping the surplus. -/
def readRecord (buffer : List α) (chunks : List (List α)) : Option (List α × List α × List (List α)) :=
  match topUp c.headerLength buffer chunks with
  | none => none
  | some (header, chunks) =>
      match topUp (c.total header) header chunks with
      | none => none
      | some (bytes, chunks) => some (bytes.take (c.total header), bytes.drop (c.total header), chunks)

/-- Reading a record off chunks is cutting it off the stream they make up. -/
theorem readRecord_eq_next (buffer : List α) (chunks : List (List α)) :
    (c.readRecord buffer chunks).map (fun read => (read.1, read.2.1 ++ read.2.2.flatten)) = c.next (buffer ++ chunks.flatten) := by
  rw [readRecord]
  rcases topUp_spec c.headerLength buffer chunks with ⟨hnone, hshort⟩ | ⟨extra, left, hsome, hheader, hflat⟩
  · rw [hnone, next, if_neg fun hcomplete => absurd hcomplete.1 (by omega)]
    rfl
  · have htotal : c.total (buffer ++ chunks.flatten) = c.total (buffer ++ extra) := by
      rw [← hflat, ← List.append_assoc, c.total_append _ _ hheader]
    rw [hsome, next, htotal]
    dsimp only
    rcases topUp_spec (c.total (buffer ++ extra)) (buffer ++ extra) left with
      ⟨hnone, hshort⟩ | ⟨extra', left', hsome', henough, hflat'⟩
    · rw [List.append_assoc, hflat] at hshort
      rw [hnone, if_neg fun hcomplete => absurd hcomplete.2 (by omega)]
      rfl
    · have hstream : buffer ++ chunks.flatten = buffer ++ extra ++ extra' ++ left'.flatten := by
        rw [← hflat, ← hflat', List.append_assoc, List.append_assoc]
      have hlong : (buffer ++ extra ++ extra').length ≤ (buffer ++ chunks.flatten).length := by
        simp only [hstream, List.length_append]
        omega
      have hlong' : (buffer ++ extra).length ≤ (buffer ++ extra ++ extra').length := by
        simp only [List.length_append]
        omega
      rw [hsome', if_pos ⟨Nat.le_trans hheader (Nat.le_trans hlong' hlong), Nat.le_trans henough hlong⟩, hstream,
        List.take_append_of_le_length henough, List.drop_append_of_le_length henough]
      rfl

theorem readRecord_nil (buffer : List α) : c.readRecord buffer [] = (c.next buffer).map fun cut => (cut.1, cut.2, []) := by
  rw [readRecord, next, topUp]
  by_cases hheader : c.headerLength ≤ buffer.length
  · rw [if_pos hheader]
    dsimp only
    rw [topUp]
    by_cases hlong : c.total buffer ≤ buffer.length
    · rw [if_pos hlong, if_pos ⟨hheader, hlong⟩]
      rfl
    · rw [if_neg hlong, if_neg fun hcomplete => hlong hcomplete.2]
      rfl
  · rw [if_neg hheader, if_neg fun hcomplete => hheader hcomplete.1]
    rfl

end Framing

end BrowsercoreHttp2
