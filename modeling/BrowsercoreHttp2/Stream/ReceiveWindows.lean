import BrowsercoreHttp2.Stream.Handles
import BrowsercoreHttp2.Stream.ReceiveCredit

/-!
# Receive windows

A DATA frame with octets is taken off the window of the connection and of its stream, and the octets go back to the
peer as WINDOW_UPDATE frames. No window is put up again when they do, so the windows fall behind the credit that was
granted with the first octet.
-/

namespace BrowsercoreHttp2

open Relation

/-! ### The account of the frames -/

/-- The octets of a DATA frame on a stream, padding included. -/
def ManagerOp.dataReceivedOn (id : StreamId) : ManagerOp → Nat
  | .dispatch (.data frame) => if frame.streamId = id then frame.payload.length else 0
  | _ => 0

/-- The octets credited to a stream, or to the connection as stream 0. -/
def creditFor (id : StreamId) (effects : List Effect) : Int :=
  (((creditsIn effects).filter fun credit => credit.1 = id).map Prod.snd).sum

/-- What each stream has received and has been credited with since it entered the table. -/
structure Receipts where
  received : StreamId → Nat
  granted : StreamId → Int

namespace Receipts

def none : Receipts := ⟨fun _ => 0, fun _ => 0⟩

/-- One more operation, and what it sent. A stream that is created starts anew. -/
def post (r : Receipts) (m : Manager) (op : ManagerOp) : Receipts where
  received id := (if m.creates op = some id then 0 else r.received id) + op.dataReceivedOn id
  granted id := (if m.creates op = some id then 0 else r.granted id) +
    creditFor id ((m.step op).effects.drop m.effects.length)

theorem post_received (r : Receipts) (m : Manager) (op : ManagerOp) (id : StreamId) :
    (r.post m op).received id = (if m.creates op = some id then 0 else r.received id) + op.dataReceivedOn id := rfl

theorem post_granted (r : Receipts) (m : Manager) (op : ManagerOp) (id : StreamId) :
    (r.post m op).granted id =
      (if m.creates op = some id then 0 else r.granted id) + creditFor id ((m.step op).effects.drop m.effects.length) := rfl

end Receipts

def receiptsFrom (m : Manager) (r : Receipts) : List ManagerOp → Receipts
  | [] => r
  | op :: ops => receiptsFrom (m.step op) (r.post m op) ops

def receipts (ops : List ManagerOp) : Receipts := receiptsFrom .create .none ops

/-- Every receive window is its initial size less what was received and more what was granted. -/
structure WindowsMirrored (ops : List ManagerOp) : Prop where
  connection : (Manager.run ops).connectionReceiveWindow =
    defaultInitialWindowSize - dataReceived ops + creditFor 0 (Manager.run ops).effects
  streams : ∀ st ∈ (Manager.run ops).streams.entries,
    st.remoteWindow.size = st.remoteWindow.initialSize - (receipts ops).received st.id + (receipts ops).granted st.id

theorem receiptsFrom_append (m : Manager) (r : Receipts) (ops ops' : List ManagerOp) :
    receiptsFrom m r (ops ++ ops') = receiptsFrom (m.steps ops) (receiptsFrom m r ops) ops' := by
  induction ops generalizing m r with
  | nil => rfl
  | cons op ops ih => exact ih (m.step op) (r.post m op)

theorem receipts_concat (ops : List ManagerOp) (op : ManagerOp) :
    receipts (ops ++ [op]) = (receipts ops).post (Manager.run ops) op := receiptsFrom_append _ _ ops [op]

theorem dataReceived_concat (ops : List ManagerOp) (op : ManagerOp) :
    dataReceived (ops ++ [op]) = dataReceived ops + op.dataReceived := by
  rw [dataReceived, dataReceived, List.map_append, List.sum_append, List.map_singleton, List.sum_singleton]

namespace Manager

variable {m m' : Manager}

/-! ### Operations without octets -/

/-- The windows after moves that take nothing. -/
theorem HandleMoves.windows (h : HandleMoves false m m') :
    m'.connectionReceiveWindow = m.connectionReceiveWindow ∧
      ∀ st' ∈ m'.streams.entries, ∃ st ∈ m.streams.entries, st'.remoteWindow = st.remoteWindow := by
  induction h with
  | refl => exact ⟨rfl, fun st' hst' => ⟨st', hst', rfl⟩⟩
  | @tail m₁ m₂ _ hmove ih =>
      have hstep : m₂.connectionReceiveWindow = m₁.connectionReceiveWindow ∧
          ∀ st' ∈ m₂.streams.entries, ∃ st ∈ m₁.streams.entries, st'.remoteWindow = st.remoteWindow := by
        cases hmove with
        | aside hstreams _ hwindow => exact ⟨hwindow rfl, fun st' hst' => ⟨st', hstreams ▸ hst', rfl⟩⟩
        | @written st st' hget _ _ hwindow =>
            refine ⟨rfl, fun w hw => ?_⟩
            rcases Table.mem_set hw with rfl | ⟨hw, -⟩
            · exact ⟨st, Table.mem_of_get hget, hwindow rfl⟩
            · exact ⟨w, hw, rfl⟩
        | finalized => exact ⟨rfl, fun w hw => ⟨w, (Table.mem_delete.mp hw).1, rfl⟩⟩
      refine ⟨hstep.1.trans ih.1, fun w hw => ?_⟩
      obtain ⟨w', hw', hsame'⟩ := hstep.2 w hw
      obtain ⟨st, hst, hsame⟩ := ih.2 w' hw'
      exact ⟨st, hst, hsame'.trans hsame⟩

theorem step_windows {op : ManagerOp} (htakes : op.takes = false) :
    (m.step op).connectionReceiveWindow = m.connectionReceiveWindow ∧
      ∀ st' ∈ (m.step op).streams.entries,
        st'.remoteWindow.size = st'.remoteWindow.initialSize ∨ ∃ st ∈ m.streams.entries, st'.remoteWindow = st.remoteWindow := by
  cases hcreates : m.creates op with
  | none =>
      have hmoves := step_handleMoves hcreates
      rw [htakes] at hmoves
      exact ⟨hmoves.windows.1, fun st' hst' => .inr (hmoves.windows.2 st' hst')⟩
  | some id =>
      obtain ⟨st, hinserts, -, -, hwindow⟩ := step_inserts hcreates
      refine ⟨hinserts.window, fun st' hst' => ?_⟩
      rw [hinserts.streams] at hst'
      rcases Table.mem_set hst' with rfl | ⟨hst', -⟩
      · exact .inl (by rw [hwindow])
      · exact .inr ⟨st', hst', rfl⟩

theorem step_creditFor (m : Manager) (op : ManagerOp) (id : StreamId) :
    creditFor id ((m.step op).effects.drop m.effects.length) =
      (((m.credits op).filter fun credit => credit.1 = id).map Prod.snd).sum := by
  obtain ⟨new, hnew⟩ := m.step_effects op
  have hcredits := m.step_credits op
  rw [← hnew, creditsIn_append] at hcredits
  rw [← hnew, List.drop_left, creditFor, List.append_cancel_left hcredits]

theorem step_dataReceived {op : ManagerOp} (htakes : op.takes = false) :
    op.dataReceived = 0 ∧ ∀ id, op.dataReceivedOn id = 0 := by
  cases op with
  | dispatch frame =>
      cases frame with
      | data frame =>
          have hnil : frame.payload = [] := not_not.mp (of_decide_eq_false htakes)
          rw [ManagerOp.dataReceived]
          refine ⟨congrArg List.length hnil, fun id => ?_⟩
          rw [ManagerOp.dataReceivedOn, hnil, List.length_nil, ite_self]
      | _ => exact ⟨rfl, fun _ => rfl⟩
  | _ => exact ⟨rfl, fun _ => rfl⟩

theorem credits_zero {op : ManagerOp} (htakes : op.takes = false) : ∀ credit ∈ m.credits op, credit.2 = 0 := by
  cases op with
  | dispatch frame =>
      cases frame with
      | data frame =>
          have hnil : frame.payload = [] := not_not.mp (of_decide_eq_false htakes)
          rw [credits, hnil]
          cases m.streams.get frame.streamId with
          | none => exact fun _ hmem => absurd hmem List.not_mem_nil
          | some st =>
              rw [Option.elim_some, ManagedStream.credits]
              split <;> simp
      | _ => exact fun _ hmem => absurd hmem List.not_mem_nil
  | _ => exact fun _ hmem => absurd hmem List.not_mem_nil

theorem sum_credits_zero {op : ManagerOp} (htakes : op.takes = false) (id : StreamId) :
    (((m.credits op).filter fun credit => credit.1 = id).map Prod.snd).sum = 0 := by
  apply List.sum_eq_zero
  intro octets hmem
  obtain ⟨credit, hcredit, rfl⟩ := List.mem_map.mp hmem
  exact credits_zero htakes credit (List.mem_filter.mp hcredit).1

/-- The account of a run that has taken nothing off a window. -/
structure Untouched (ops : List ManagerOp) : Prop where
  connection : (run ops).connectionReceiveWindow = defaultInitialWindowSize
  streams : ∀ st ∈ (run ops).streams.entries, st.remoteWindow.size = st.remoteWindow.initialSize
  received : dataReceived ops = 0
  credited : creditFor 0 (run ops).effects = 0
  receipts : ∀ id, (receipts ops).received id = 0 ∧ (receipts ops).granted id = 0

theorem creditFor_concat (ops : List ManagerOp) (op : ManagerOp) (id : StreamId) :
    creditFor id (run (ops ++ [op])).effects = creditFor id (run ops).effects +
      ((((run ops).credits op).filter fun credit => credit.1 = id).map Prod.snd).sum := by
  rw [run_concat, creditFor, step_credits, List.filter_append, List.map_append, List.sum_append]
  rfl

theorem untouched {ops : List ManagerOp} (hops : ∀ op ∈ ops, op.takes = false) : Untouched ops := by
  induction ops using List.reverseRecOn with
  | nil => exact ⟨rfl, fun _ hst => absurd hst List.not_mem_nil, rfl, rfl, fun _ => ⟨rfl, rfl⟩⟩
  | append_singleton ops op ih =>
      have htakes : op.takes = false := hops op (List.mem_append_right ops List.mem_cons_self)
      have hbefore := ih fun op hmem => hops op (List.mem_append_left _ hmem)
      obtain ⟨hconnection, hstreams⟩ := (run ops).step_windows htakes
      obtain ⟨hreceived, hreceivedOn⟩ := step_dataReceived htakes
      constructor
      · rw [run_concat, hconnection, hbefore.connection]
      · rw [run_concat]
        intro st' hst'
        rcases hstreams st' hst' with hfull | ⟨st, hst, hsame⟩
        · exact hfull
        · rw [hsame]
          exact hbefore.streams st hst
      · rw [dataReceived_concat, hbefore.received, hreceived]
      · rw [creditFor_concat, hbefore.credited, sum_credits_zero htakes, Int.add_zero]
      · intro id
        obtain ⟨hnone, hnothing⟩ := hbefore.receipts id
        rw [receipts_concat]
        constructor
        · rw [Receipts.post_received, hnone, hreceivedOn, ite_self]
        · rw [Receipts.post_granted, hnothing, step_creditFor, sum_credits_zero htakes, ite_self, Int.add_zero]

theorem Untouched.mirrored {ops : List ManagerOp} (h : Untouched ops) : WindowsMirrored ops where
  connection := by rw [h.connection, h.received, h.credited, Nat.cast_zero, Int.sub_zero, Int.add_zero]
  streams st hst := by
    rw [h.streams st hst, (h.receipts st.id).1, (h.receipts st.id).2, Nat.cast_zero, Int.sub_zero, Int.add_zero]

/-! ### The first octets -/

theorem sum_credits_pos {st : ManagedStream} {octets : Nat} (hoctets : 0 < octets) :
    0 < (((st.credits octets).filter fun credit => credit.1 = 0).map Prod.snd).sum := by
  rw [ManagedStream.credits]
  split
  · simpa using hoctets
  · by_cases hconnection : st.id = 0
    · simp [hconnection]
      omega
    · simpa [hconnection] using hoctets

theorem handleData_connectionReceiveWindow {st : ManagedStream} {frame : DataFrame} (hget : m.streams.get frame.streamId = some st) :
    (m.handleData frame).connectionReceiveWindow = m.connectionReceiveWindow - frame.payload.length := by
  obtain ⟨m₁, haccounted, hrun⟩ := handleData_eq hget
  rw [hrun, ← haccounted.connectionReceiveWindow]
  split
  · exact (maybeResolveResponse_handleMoves (Table.get_set_self m₁.streams _)).windows.1
  · rfl

/-- With the first octets the connection's window falls behind. -/
theorem Untouched.not_mirrored {ops : List ManagerOp} {op : ManagerOp} (h : Untouched ops) (htakes : op.takes = true) :
    ¬ WindowsMirrored (ops ++ [op]) := by
  intro hmirrored
  cases op with
  | dispatch frame =>
      cases frame with
      | data frame =>
          have hpos : 0 < frame.payload.length := List.length_pos_iff.mpr (of_decide_eq_true htakes)
          have hconnection := hmirrored.connection
          rw [dataReceived_concat, h.received, creditFor_concat, h.credited, Nat.zero_add, Int.zero_add, credits,
            run_concat, step, dispatch, ManagerOp.dataReceived] at hconnection
          cases hget : (run ops).streams.get frame.streamId with
          | none =>
              -- the frame is dropped before it is accounted for
              rw [handleData, hget, h.connection] at hconnection
              simp only [Option.elim_none, List.filter_nil, List.map_nil, List.sum_nil] at hconnection
              omega
          | some st =>
              have hcredited := @sum_credits_pos st _ hpos
              rw [handleData_connectionReceiveWindow hget, h.connection, hget, Option.elim_some] at hconnection
              omega
      | _ => exact absurd htakes Bool.false_ne_true
  | _ => exact absurd htakes Bool.false_ne_true

end Manager

theorem takes_eq_false_iff (ops : List ManagerOp) :
    (∀ op ∈ ops, op.takes = false) ↔ ∀ frame, .dispatch (.data frame) ∈ ops → frame.payload = [] := by
  constructor
  · exact fun h frame hmem => not_not.mp (of_decide_eq_false (h _ hmem))
  · intro h op hmem
    cases op with
    | dispatch frame =>
        cases frame with
        | data frame => exact decide_eq_false (not_not.mpr (h frame hmem))
        | _ => rfl
    | _ => rfl

/-- In every run: the receive windows mirror what was received and granted in every state reached exactly when no
DATA frame of the run has octets. -/
theorem receive_windows_mirror_iff (ops : List ManagerOp) :
    (∀ sofar, sofar <+: ops → WindowsMirrored sofar) ↔ ∀ frame, .dispatch (.data frame) ∈ ops → frame.payload = [] := by
  rw [← takes_eq_false_iff]
  constructor
  · intro hmirrored
    induction ops using List.reverseRecOn with
    | nil => exact fun op hmem => absurd hmem List.not_mem_nil
    | append_singleton ops op ih =>
        have hbefore := ih fun sofar hsofar => hmirrored sofar (hsofar.trans (List.prefix_append ops [op]))
        have hlast : op.takes = false := by
          by_contra htakes
          exact (Manager.untouched hbefore).not_mirrored (Bool.eq_true_of_not_eq_false htakes) (hmirrored _ List.prefix_rfl)
        exact List.forall_mem_append.mpr ⟨hbefore, List.forall_mem_singleton.mpr hlast⟩
  · exact fun h sofar hsofar => (Manager.untouched fun op hmem => h op (hsofar.subset hmem)).mirrored

/-- One octet of a response. -/
theorem octet_not_mirrored :
    ¬ ∀ sofar, sofar <+: [.openStream, .dispatch (.data ⟨0, 1, [0x78]⟩)] → WindowsMirrored sofar := by
  intro hmirrored
  have hconnection := (hmirrored _ List.prefix_rfl).connection
  exact absurd hconnection (by decide +kernel)

end BrowsercoreHttp2
