import BrowsercoreHttp2.Serializer
import BrowsercoreHttp2.Javascript.Number
import BrowsercoreHttp2.Stream.Departures

/-!
# The ids of client streams

`openStream` counts in steps of two and has no last id. The serializer keeps 31 bits of an id, so the ids of the first
`2^30` streams are their own names on the wire, and the next one is called 1 again.
-/

namespace BrowsercoreHttp2

/-- The octets of the stream id in a frame. -/
def streamIdField (octets : Bytes) : Bytes := (octets.drop 5).take 4

/-- The ids are valid, in ascending order and distinct on the wire. -/
structure ValidIds (ids : List StreamId) : Prop where
  odd : ∀ id ∈ ids, id % 2 = 1
  ascending : ids.Pairwise (· < ·)
  bounded : ∀ id ∈ ids, id ≤ 2 ^ 31 - 1
  distinct : ∀ (nibble nibble' : Nat) (frame frame' : Frame), frame.streamId ∈ ids → frame'.streamId ∈ ids →
    streamIdField (serializeFrame nibble frame) = streamIdField (serializeFrame nibble' frame') → frame.streamId = frame'.streamId

/-! ### On the wire -/

theorem octetsOf_injective {width n n' : Nat} (hn : n < 256 ^ width) (hn' : n' < 256 ^ width) (h : octetsOf width n = octetsOf width n') :
    n = n' := by
  have hread := congrArg bigEndian h
  rwa [bigEndian_octetsOf, bigEndian_octetsOf, Nat.mod_eq_of_lt hn, Nat.mod_eq_of_lt hn'] at hread

theorem setUint32_masked (n : Nat) : setUint32 (Js.bitAnd n 0x7fffffff) = octetsOf 4 (n % 2 ^ 31) := by
  have hmask := Js.bitAnd_natCast n (m := 0x7fffffff) (by norm_num)
  rw [and_low31] at hmask
  rw [show Js.bitAnd n 0x7fffffff = (n % 2 ^ 31 : Nat) from hmask]
  apply setUint_of_lt
  omega

theorem streamIdField_serializeFrame (nibble : Nat) (frame : Frame) :
    streamIdField (serializeFrame nibble frame) = octetsOf 4 (frame.streamId % 2 ^ 31) := by
  rw [serializeFrame, setUint32_masked, streamIdField, List.append_assoc]
  rw [List.drop_left' (by simp [setUint8]), List.take_left' (octetsOf_length 4 _)]

/-- Two ids share their octets when they differ by a multiple of `2^31`. -/
theorem streamIdField_eq_iff (nibble nibble' : Nat) (frame frame' : Frame) :
    streamIdField (serializeFrame nibble frame) = streamIdField (serializeFrame nibble' frame') ↔
      frame.streamId % 2 ^ 31 = frame'.streamId % 2 ^ 31 := by
  rw [streamIdField_serializeFrame, streamIdField_serializeFrame]
  constructor
  · intro h
    apply octetsOf_injective _ _ h <;> omega
  · exact congrArg (octetsOf 4)

namespace Manager

/-! ### Opening -/

/-- The ids `openStream` returns in a run. -/
def openedIds (m : Manager) : List ManagerOp → List StreamId
  | [] => []
  | op :: ops =>
      if op = .openStream then m.openStream.2.id :: (m.step op).openedIds ops
      else (m.step op).openedIds ops

theorem openedIds_eq (m : Manager) (ops : List ManagerOp) :
    m.openedIds ops = (List.range (ops.count .openStream)).map (m.nextStreamId + 2 * ·) := by
  induction ops generalizing m with
  | nil => rfl
  | cons op ops ih =>
      rw [openedIds, ih, step_nextStreamId, List.count_cons]
      by_cases hopen : op = .openStream
      · rw [if_pos hopen, if_pos hopen, hopen, beq_self_eq_true, if_pos rfl, List.range_succ_eq_map, List.map_cons, List.map_map]
        apply congrArg₂
        · exact (Nat.add_zero _).symm
        · apply List.map_congr_left
          intro i _
          dsimp only [Function.comp_apply]
          omega
      · rw [if_neg hopen, if_neg hopen, beq_false_of_ne hopen, if_neg Bool.false_ne_true, Nat.add_zero]

theorem mem_openedIds_create {ops : List ManagerOp} {id : StreamId} :
    id ∈ create.openedIds ops ↔ ∃ i < ops.count .openStream, 1 + 2 * i = id := by
  rw [openedIds_eq, List.mem_map]
  simp only [List.mem_range]
  exact Iff.rfl

end Manager

open Manager in
/-- In every run: the ids of the streams that are opened are valid, ascending and distinct on the wire exactly when there
are at most `2^30` of them. -/
theorem openedIds_valid_iff (ops : List ManagerOp) : ValidIds (create.openedIds ops) ↔ ops.count .openStream ≤ 2 ^ 30 := by
  constructor
  · intro h
    by_contra hmany
    have hlast := h.bounded (1 + 2 * 2 ^ 30) (mem_openedIds_create.mpr ⟨2 ^ 30, Nat.lt_of_not_le hmany, rfl⟩)
    exact absurd hlast (by decide)
  · intro hfew
    have hbounded : ∀ id ∈ create.openedIds ops, id < 2 ^ 31 := by
      intro id hid
      obtain ⟨i, hi, rfl⟩ := mem_openedIds_create.mp hid
      have hi' : i < 2 ^ 30 := hi.trans_le hfew
      apply (by omega : 1 + 2 * i < 2 ^ 31)
    refine ⟨?_, ?_, fun id hid => Nat.le_pred_of_lt (hbounded id hid), ?_⟩
    · intro id hid
      obtain ⟨i, -, rfl⟩ := mem_openedIds_create.mp hid
      exact Nat.add_mul_mod_self_left 1 2 i
    · rw [openedIds_eq, List.pairwise_map]
      apply List.pairwise_lt_range.imp
      intro i j hlt
      exact Nat.add_lt_add_left (Nat.mul_lt_mul_of_pos_left hlt Nat.two_pos) _
    · intro nibble nibble' frame frame' hid hid' hfield
      rwa [streamIdField_eq_iff, Nat.mod_eq_of_lt (hbounded _ hid), Nat.mod_eq_of_lt (hbounded _ hid')] at hfield

/-- One stream more than there are odd ids of 31 bits. -/
def openedTooMany : List ManagerOp := List.replicate (2 ^ 30 + 1) .openStream

open Manager in
/-- The stream after the first `2^30` gets an id beyond 31 bits, and its frames go out under the id of the first one. -/
theorem openedTooMany_collide :
    ¬ ValidIds (create.openedIds openedTooMany) ∧ 1 ∈ create.openedIds openedTooMany ∧ 2 ^ 31 + 1 ∈ create.openedIds openedTooMany ∧
      streamIdField (serializeFrame 0 (.rstStream ⟨0, 1, 0x8⟩)) = streamIdField (serializeFrame 0 (.rstStream ⟨0, 2 ^ 31 + 1, 0x8⟩)) := by
  have hcount : openedTooMany.count .openStream = 2 ^ 30 + 1 := List.count_replicate_self
  have hlast : 2 ^ 31 + 1 ∈ create.openedIds openedTooMany := mem_openedIds_create.mpr ⟨2 ^ 30, by omega, rfl⟩
  refine ⟨fun h => ?_, mem_openedIds_create.mpr ⟨0, by omega, rfl⟩, hlast, ?_⟩
  · exact absurd (h.bounded _ hlast) (by decide)
  · rw [streamIdField_eq_iff]
    rfl

end BrowsercoreHttp2
