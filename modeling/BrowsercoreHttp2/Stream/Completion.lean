import BrowsercoreHttp2.Stream.SendQueue
import Mathlib.Algebra.BigOperators.Group.Finset.Piecewise
import Mathlib.Algebra.Order.BigOperators.Group.Finset

/-!
# Uploads that complete

The octets of DATA that are out and those that are queued are never more than what was handed in, over all
streams together. So all that was handed in for a stream is out once the peer's credit is as large as that.
-/

namespace BrowsercoreHttp2

/-! ### Amounts by key -/

section Amounts

variable {κ : Type} [DecidableEq κ]

/-- The amounts under one key. -/
def amountOf (k : κ) (amounts : List (κ × Nat)) : Nat := ((amounts.filter fun amount => amount.1 = k).map Prod.snd).sum

theorem amountOf_cons (k : κ) (amount : κ × Nat) (amounts : List (κ × Nat)) :
    amountOf k (amount :: amounts) = (if k = amount.1 then amount.2 else 0) + amountOf k amounts := by
  by_cases hk : amount.1 = k
  · have hkept := List.filter_cons_of_pos (p := fun amount : κ × Nat => amount.1 = k) (l := amounts) (decide_eq_true hk)
    rw [amountOf, hkept, List.map_cons, List.sum_cons, if_pos hk.symm, amountOf]
  · have hdropped := List.filter_cons_of_neg (p := fun amount : κ × Nat => amount.1 = k) (l := amounts) fun h => hk (of_decide_eq_true h)
    rw [amountOf, hdropped, if_neg (Ne.symm hk), zero_add, amountOf]

theorem sum_amountOf (keys : Finset κ) {amounts : List (κ × Nat)} (h : ∀ amount ∈ amounts, amount.1 ∈ keys) :
    ∑ k ∈ keys, amountOf k amounts = (amounts.map Prod.snd).sum := by
  induction amounts with
  | nil => exact Finset.sum_const_zero
  | cons amount amounts ih =>
      obtain ⟨hfirst, hrest⟩ := List.forall_mem_cons.mp h
      simp only [amountOf_cons, Finset.sum_add_distrib, Finset.sum_ite_eq', if_pos hfirst, ih hrest, List.map_cons, List.sum_cons]

theorem sum_amountOf_le (keys : Finset κ) (amounts : List (κ × Nat)) :
    ∑ k ∈ keys, amountOf k amounts ≤ (amounts.map Prod.snd).sum := by
  rw [← sum_amountOf (keys ∪ (amounts.map Prod.fst).toFinset) fun amount hamount =>
    Finset.mem_union_right keys (List.mem_toFinset.mpr (List.mem_map_of_mem hamount))]
  exact Finset.sum_le_sum_of_subset Finset.subset_union_left

end Amounts

/-! ### What is handed in -/

/-- The octets that an operation hands in, and for which stream. -/
def ManagerOp.handed : ManagerOp → Option (StreamId × Nat)
  | .sendData streamId data _ => some (streamId, data.length)
  | _ => none

/-- The octets handed in for all streams together. -/
def octetsHanded (ops : List ManagerOp) : Nat := ((ops.filterMap ManagerOp.handed).map Prod.snd).sum

theorem length_flatMap_dataFor (id : StreamId) (ops : List ManagerOp) :
    (ops.flatMap (ManagerOp.dataFor id)).length = amountOf id (ops.filterMap ManagerOp.handed) := by
  induction ops with
  | nil => rfl
  | cons op ops ih =>
      rw [List.flatMap_cons, List.length_append, ih]
      cases op with
      | sendData streamId data endStream =>
          rw [List.filterMap_cons_some (rfl : ManagerOp.handed (.sendData streamId data endStream) = some (streamId, data.length)),
            amountOf_cons, ManagerOp.dataFor]
          by_cases hid : streamId = id
          · rw [if_pos hid, if_pos hid.symm]
          · rw [if_neg hid, if_neg (Ne.symm hid), List.length_nil]
      | _ => exact Nat.zero_add _

namespace Manager

variable {id : StreamId} {m : Manager} {b : SendBuffer UInt8}

/-- The octets of a stream that are out or queued. -/
def octetsOf (m : Manager) (id : StreamId) : Nat := dataOctetsOn id m.effects + (m.queueOf id).1.length

theorem dataOctetsOn_eq (id : StreamId) (effects : List Effect) :
    dataOctetsOn id effects = ((chunksOn id effects).map Prod.fst).flatten.length := by
  induction effects with
  | nil => rfl
  | cons effect effects ih =>
      have hsplit : effect :: effects = [effect] ++ effects := rfl
      rw [hsplit, dataOctetsOn_append, chunksOn_append, List.map_append, List.flatten_append, List.length_append, ih]
      congr 1
      cases effect with
      | sendFrame frame =>
          cases frame with
          | data frame =>
              by_cases hid : frame.streamId = id
              · simp [dataOctetsOn, chunksOn, Effect.chunkOn, Effect.sentData, hid]
              · simp [dataOctetsOn, chunksOn, Effect.chunkOn, Effect.sentData, hid]
          | _ => rfl
      | _ => rfl

theorem Tracks.octets (h : Tracks [] id m b) : m.octetsOf id = b.items.length := by
  obtain ⟨new, hnew, hsent⟩ := h.sent
  rw [octetsOf, hnew, List.nil_append, dataOctetsOn_eq, hsent, h.queue, SendBuffer.items, List.length_append]

theorem tracks_all (m : Manager) (id : StreamId) :
    Tracks [] id m ⟨(m.queueOf id).1, (m.queueOf id).2, chunksOn id m.effects⟩ := ⟨⟨m.effects, rfl, rfl⟩, rfl⟩

theorem length_items_wrote (m : Manager) (id : StreamId) (b : SendBuffer UInt8) (op : ManagerOp) :
    (m.wrote id b op).items.length ≤ b.items.length + (op.dataFor id).length := by
  cases op with
  | sendData streamId data endStream =>
      rw [wrote]
      split
      · rename_i hwrites
        rw [SendBuffer.items_write, List.length_append, ManagerOp.dataFor, if_pos hwrites.1]
      · exact Nat.le_add_right _ _
  | _ => exact Nat.le_add_right _ _

/-- One operation adds no more than what it hands in. -/
theorem step_octetsOf (m : Manager) (id : StreamId) (op : ManagerOp) :
    (m.step op).octetsOf id ≤ m.octetsOf id + (op.dataFor id).length := by
  have htracks := tracks_all m id
  rw [htracks.octets]
  by_cases hopened : op = .openStream ∧ m.nextStreamId = id
  · -- the new stream has nothing queued
    obtain ⟨hop, hid⟩ := hopened
    subst hop hid
    have hget : (m.step .openStream).streams.get m.nextStreamId = some m.newClientStream := Table.get_set_self _ _
    have hempty : (m.step .openStream).queueOf m.nextStreamId = ([], false) := queueOf_of_get hget
    rw [octetsOf, hempty, ← htracks.octets, octetsOf]
    show dataOctetsOn m.nextStreamId m.effects + 0 ≤ _
    omega
  · have hopen : op = .openStream → m.nextStreamId ≠ id := fun hop hid => hopened ⟨hop, hid⟩
    rcases step_tracks htracks hopen with ⟨b', hsends, htracks'⟩ | ⟨htracks', -⟩
    · rw [htracks'.octets, hsends.items_eq]
      exact length_items_wrote m id _ op
    · rw [htracks'.octets, SendBuffer.items, SendBuffer.items, List.length_append, List.length_append]
      dsimp only [SendBuffer.discard, List.length_nil]
      omega

theorem run_octetsOf (ops : List ManagerOp) (id : StreamId) :
    (run ops).octetsOf id ≤ amountOf id (ops.filterMap ManagerOp.handed) := by
  rw [← length_flatMap_dataFor]
  induction ops using List.reverseRecOn with
  | nil => exact Nat.le_refl _
  | append_singleton ops op ih =>
      rw [run_concat, List.flatMap_append, List.flatMap_singleton, List.length_append]
      exact (step_octetsOf (run ops) id op).trans (Nat.add_le_add_right ih _)

/-- Over all streams together, with what one of them has queued. -/
theorem run_octets (ops : List ManagerOp) (id : StreamId) :
    dataOctets (run ops).effects + ((run ops).queueOf id).1.length ≤ octetsHanded ops := by
  let sent := (run ops).effects.filterMap Effect.sentData
  let keys := insert id (sent.map Prod.fst).toFinset
  have hsent : ∑ k ∈ keys, dataOctetsOn k (run ops).effects = dataOctets (run ops).effects :=
    sum_amountOf keys fun amount hamount => Finset.mem_insert_of_mem (List.mem_toFinset.mpr (List.mem_map_of_mem hamount))
  have hqueued : ((run ops).queueOf id).1.length ≤ ∑ k ∈ keys, ((run ops).queueOf k).1.length :=
    Finset.single_le_sum (f := fun k => ((run ops).queueOf k).1.length) (fun _ _ => Nat.zero_le _) (Finset.mem_insert_self id _)
  calc dataOctets (run ops).effects + ((run ops).queueOf id).1.length
      ≤ ∑ k ∈ keys, dataOctetsOn k (run ops).effects + ∑ k ∈ keys, ((run ops).queueOf k).1.length :=
        Nat.add_le_add (Nat.le_of_eq hsent.symm) hqueued
    _ = ∑ k ∈ keys, (run ops).octetsOf k := Finset.sum_add_distrib.symm
    _ ≤ ∑ k ∈ keys, amountOf k (ops.filterMap ManagerOp.handed) := Finset.sum_le_sum fun k _ => run_octetsOf ops k
    _ ≤ octetsHanded ops := sum_amountOf_le keys _

/-! ### The windows of now -/

theorem run_matches (ops : List ManagerOp) : (run ops).Matches (creditAt ops (.expectResponse 0 0 0) []) :=
  steps_matches create_matches ops

theorem run_connectionSendWindow (ops : List ManagerOp) :
    (run ops).connectionSendWindow = 65535 + connectionIncrements ops - dataOctets (run ops).effects := by
  have hincrements : connectionIncrements (ops ++ [.expectResponse 0 0 0]) = connectionIncrements ops := by
    rw [connectionIncrements, List.map_append, List.sum_append]
    exact Int.add_zero _
  rw [← (run_matches ops).shared, creditAt_shared, hincrements, List.append_nil]
  rfl

theorem run_localWindow (before after : List ManagerOp) {st : ManagedStream}
    (hget : (run (before ++ .openStream :: after)).streams.get (run before).nextStreamId = some st) (hclient : st.isPushPromise = false) :
    st.localWindow.size =
      latestInitialWindowSize (before ++ .openStream :: after) + streamIncrements (run before).nextStreamId after -
        dataOctetsOn (run before).nextStreamId ((run (before ++ .openStream :: after)).effects.drop (run before).effects.length) := by
  have hlatest : latestInitialWindowSize (before ++ .openStream :: after ++ [.expectResponse 0 0 0]) =
      latestInitialWindowSize (before ++ .openStream :: after) := by
    rw [latestInitialWindowSize, List.foldl_concat]
    rfl
  have hincrements : streamIncrements (run before).nextStreamId (after ++ [.expectResponse 0 0 0]) =
      streamIncrements (run before).nextStreamId after := by
    rw [streamIncrements, List.map_append, List.sum_append]
    exact Int.add_zero _
  have hown := (run_matches (before ++ .openStream :: after)).own st (Table.mem_of_get hget) hclient
  rw [Table.key_of_get hget] at hown
  rw [← hown]
  have hcredit := creditAt_own before after (.expectResponse 0 0 0) []
  dsimp only at hcredit
  rw [hcredit, hlatest, hincrements, List.append_nil]

theorem run_allDrained (ops : List ManagerOp) : (run ops).AllDrained := by
  induction ops using List.reverseRecOn with
  | nil => exact fun _ hst => absurd hst List.not_mem_nil
  | append_singleton ops op ih =>
      rw [run_concat]
      exact step_allDrained (Nat.lt_of_lt_of_le (by decide) (run_maxFrameSize ops).1) ih op

end Manager

/-- Enough credit for the connection and for a client stream in the table leaves the stream nothing to queue. -/
theorem drained_of_credit (before after : List ManagerOp) {st : ManagedStream}
    (hget : (Manager.run (before ++ .openStream :: after)).streams.get (Manager.run before).nextStreamId = some st)
    (hclient : st.isPushPromise = false)
    (hconnection : (octetsHanded (before ++ .openStream :: after) : Int) ≤ 65535 + connectionIncrements (before ++ .openStream :: after))
    (hstream : ((after.flatMap (ManagerOp.dataFor (Manager.run before).nextStreamId)).length : Int) ≤
      latestInitialWindowSize (before ++ .openStream :: after) + streamIncrements (Manager.run before).nextStreamId after) :
    st.sendQueue = [] := by
  apply List.length_eq_zero_iff.mp
  rcases Manager.run_allDrained _ st (Table.mem_of_get hget) with hnone | hshared | hown
  · rw [hnone, List.length_nil]
  · -- the connection's credit is used up, by no more than what was handed in without what is queued
    have hoctets := Manager.run_octets (before ++ .openStream :: after) (Manager.run before).nextStreamId
    rw [Manager.queueOf_of_get hget, ManagedStream.queue] at hoctets
    rw [Manager.run_connectionSendWindow] at hshared
    dsimp only at hoctets
    omega
  · have hlength := congrArg List.length (opened_buffer before after hget hclient)
    rw [List.length_append, sentSince, ← Manager.dataOctetsOn_eq] at hlength
    rw [Manager.run_localWindow before after hget hclient] at hown
    omega

/-- No stream has more octets out than were handed in for it, whatever has become of it. A client stream in the table has
all of them out, in their order, and nothing queued, once the peer's credit is large enough: for the connection as large as what
was handed in for all streams, and for the stream as large as what was handed in for it. -/
theorem upload_completes (before after : List ManagerOp) :
    (∀ id, dataOctetsOn id (Manager.run (before ++ .openStream :: after)).effects ≤
        ((before ++ .openStream :: after).flatMap (ManagerOp.dataFor id)).length) ∧
      ∀ st, (Manager.run (before ++ .openStream :: after)).streams.get (Manager.run before).nextStreamId = some st →
        st.isPushPromise = false →
        (octetsHanded (before ++ .openStream :: after) : Int) ≤ 65535 + connectionIncrements (before ++ .openStream :: after) →
        ((after.flatMap (ManagerOp.dataFor (Manager.run before).nextStreamId)).length : Int) ≤
          latestInitialWindowSize (before ++ .openStream :: after) + streamIncrements (Manager.run before).nextStreamId after →
        ((sentSince before after).map Prod.fst).flatten = after.flatMap (ManagerOp.dataFor (Manager.run before).nextStreamId) ∧
          st.sendQueue = [] := by
  constructor
  · intro id
    have hoctets := Manager.run_octetsOf (before ++ .openStream :: after) id
    rw [← length_flatMap_dataFor] at hoctets
    exact (Nat.le_add_right _ _).trans hoctets
  · intro st hget hclient hconnection hstream
    have hempty := drained_of_credit before after hget hclient hconnection hstream
    refine ⟨?_, hempty⟩
    rw [← opened_buffer before after hget hclient, hempty, List.append_nil]

/-- The cut upload, and the peer grants the octet that was left over. -/
def grantedUpload : List ManagerOp := cutUpload ++ [.dispatch (.windowUpdate ⟨0, 1, 1⟩)]

theorem upload_completes_granted :
    dataOctetsOn 1 (Manager.run (.openStream :: grantedUpload)).effects ≤ 4 ∧
      ((sentSince [] grantedUpload).map Prod.fst).flatten = [0x61, 0x62, 0x63, 0x64] ∧
      ({ cutStream with sendQueue := [] } : ManagedStream).sendQueue = [] :=
  ⟨(upload_completes [] grantedUpload).1 1,
    (upload_completes [] grantedUpload).2 { cutStream with sendQueue := [] } (by decide +kernel) rfl (by decide +kernel) (by decide +kernel)⟩

end BrowsercoreHttp2
