import BrowsercoreHttp2.Library.Runs
import BrowsercoreHttp2.Stream.Handles

/-!
# Close reasons

The holder of a stream reads off its state why it was closed. The handlers of RST_STREAM and GOAWAY write the cause
there and then let `finalizeStream` close the stream, which writes its own. So whatever ends a client stream, its
handle says that it was closed normally.
-/

namespace BrowsercoreHttp2

open Relation

def StreamState.closeReason : StreamState → Option StreamCloseReason
  | .closed reason => some reason
  | _ => none

theorem StreamState.closeReason_eq_some {state : StreamState} {reason : StreamCloseReason} :
    state.closeReason = some reason ↔ state = .closed reason := by
  cases state <;> simp [closeReason]

namespace Manager

variable {m m' m'' : Manager} {id : StreamId} {op : ManagerOp} {ops : List ManagerOp}

/-- The streams that are known: those of the table, and behind them those that have left it. -/
def known (m : Manager) : List ManagedStream := m.retired ++ m.streams.entries

/-- The stream that `openStream` returned under an id, as its holder sees it. -/
def handle (m : Manager) (id : StreamId) : Option ManagedStream :=
  m.known.find? fun st => st.id = id ∧ st.isPushPromise = false

/-- Why a client stream was closed, if it is. -/
def closeReason (m : Manager) (id : StreamId) : Option StreamCloseReason := (m.handle id).bind fun st => st.state.closeReason

/-- Why a stream of the table is not there after an operation, if it is not. -/
def cause (m : Manager) (id : StreamId) : ManagerOp → Option StreamCloseReason
  | .dispatch (.rstStream frame) => if frame.streamId = id then some (.rstStream frame.errorCode) else none
  | .dispatch (.goaway frame) => if frame.lastStreamId < id then some (.goaway frame.lastStreamId) else none
  | op => if id ∈ (m.step op).streams.keys then none else some .normal

/-- How an operation ends a client stream of the table. -/
def terminates (m : Manager) (op : ManagerOp) (id : StreamId) : Option StreamCloseReason :=
  if (m.streams.get id).any fun st => !st.isPushPromise then m.cause id op else none

/-- How a client stream is first ended in a run. -/
def firstCauseFrom (m : Manager) (id : StreamId) : List ManagerOp → Option StreamCloseReason
  | [] => none
  | op :: ops => (m.terminates op id).or (firstCauseFrom (m.step op) id ops)

def firstCause (ops : List ManagerOp) (id : StreamId) : Option StreamCloseReason := create.firstCauseFrom id ops

theorem firstCauseFrom_append (m : Manager) (id : StreamId) (ops ops' : List ManagerOp) :
    m.firstCauseFrom id (ops ++ ops') = (m.firstCauseFrom id ops).or ((m.steps ops).firstCauseFrom id ops') := by
  induction ops generalizing m with
  | nil => rfl
  | cons op ops ih =>
      rw [List.cons_append, firstCauseFrom, firstCauseFrom, ih, Option.or_assoc]
      rfl

theorem firstCause_append (ops ops' : List ManagerOp) (id : StreamId) :
    firstCause (ops ++ ops') id = (firstCause ops id).or ((run ops).firstCauseFrom id ops') := firstCauseFrom_append _ _ _ _

theorem firstCause_concat (ops : List ManagerOp) (op : ManagerOp) (id : StreamId) :
    firstCause (ops ++ [op]) id = (firstCause ops id).or ((run ops).terminates op id) := by
  rw [firstCause_append, firstCauseFrom, firstCauseFrom, Option.or_none]

/-! ### Leaving the table -/

/-- Streams leave the table, closed, and the others stay as what they are. -/
structure Leaves (m m' : Manager) (new : List ManagedStream) : Prop where
  retired : m'.retired = m.retired ++ new
  closed : ∀ st ∈ new, st.state = .closed .normal
  distinct : (new.map ManagedStream.id).Nodup
  gone : ∀ st ∈ new, st.id ∉ m'.streams.keys
  came : ∀ st ∈ new ++ m'.streams.entries, ∃ w ∈ m.streams.entries, st.id = w.id ∧ st.isPushPromise = w.isPushPromise
  left : ∀ w ∈ m.streams.entries, w.id ∈ m'.streams.keys ∨ ∃ st ∈ new, st.id = w.id

theorem Leaves.refl (m : Manager) : Leaves m m [] where
  retired := (List.append_nil _).symm
  closed _ h := absurd h List.not_mem_nil
  distinct := List.nodup_nil
  gone _ h := absurd h List.not_mem_nil
  came st hst := ⟨st, hst, rfl, rfl⟩
  left _ hw := .inl (List.mem_map_of_mem hw)

theorem Leaves.trans {new new' : List ManagedStream} (h : Leaves m m' new) (h' : Leaves m' m'' new') :
    Leaves m m'' (new ++ new') := by
  have hkeys : ∀ st ∈ new' ++ m''.streams.entries, st.id ∈ m'.streams.keys := by
    intro st hst
    obtain ⟨w, hw, hid, -⟩ := h'.came st hst
    exact hid ▸ List.mem_map_of_mem hw
  constructor
  · rw [h'.retired, h.retired, List.append_assoc]
  · exact List.forall_mem_append.mpr ⟨h.closed, h'.closed⟩
  · rw [List.map_append]
    refine List.nodup_append.mpr ⟨h.distinct, h'.distinct, ?_⟩
    rintro a ha b hb rfl
    obtain ⟨st, hst, rfl⟩ := List.mem_map.mp ha
    obtain ⟨st', hst', hid⟩ := List.mem_map.mp hb
    exact h.gone st hst (hid ▸ hkeys st' (List.mem_append_left _ hst'))
  · refine List.forall_mem_append.mpr ⟨fun st hst hmem => ?_, h'.gone⟩
    obtain ⟨st', hst', hid⟩ := List.mem_map.mp hmem
    exact h.gone st hst (hid ▸ hkeys st' (List.mem_append_right _ hst'))
  · rw [List.append_assoc]
    refine List.forall_mem_append.mpr ⟨fun st hst => h.came st (List.mem_append_left _ hst), fun st hst => ?_⟩
    obtain ⟨w, hw, hid, hclient⟩ := h'.came st hst
    obtain ⟨w', hw', hid', hclient'⟩ := h.came w (List.mem_append_right _ hw)
    exact ⟨w', hw', hid.trans hid', hclient.trans hclient'⟩
  · intro w hw
    rcases h.left w hw with hkept | ⟨st, hst, hid⟩
    · obtain ⟨w', hw', hid⟩ := List.mem_map.mp hkept
      rcases h'.left w' hw' with hkept' | ⟨st, hst, hid'⟩
      · exact .inl (hid ▸ hkept')
      · exact .inr ⟨st, List.mem_append_right _ hst, hid'.trans hid⟩
    · exact .inr ⟨st, List.mem_append_left _ hst, hid⟩

theorem HandleMove.leaves {takes : Bool} (h : HandleMove takes m m') : ∃ new, Leaves m m' new := by
  cases h with
  | aside hstreams hretired =>
      refine ⟨[], ?_⟩
      have hsame := Leaves.refl m
      exact ⟨hretired.trans hsame.retired, hsame.closed, hsame.distinct, fun _ h => absurd h List.not_mem_nil,
        hstreams ▸ hsame.came, hstreams ▸ hsame.left⟩
  | @written st st' hget hid hclient =>
      refine ⟨[], (List.append_nil _).symm, fun _ h => absurd h List.not_mem_nil, List.nodup_nil,
        fun _ h => absurd h List.not_mem_nil, fun w hw => ?_, fun w hw => .inl ?_⟩
      · rcases Table.mem_set hw with rfl | ⟨hw, -⟩
        · exact ⟨st, Table.mem_of_get hget, hid, hclient⟩
        · exact ⟨w, hw, rfl, rfl⟩
      · have hkey : st'.id ∈ m.streams.keys := Table.mem_keys_iff.mpr ⟨st, by rw [hid, hget]⟩
        rw [setStream, Table.keys_set_of_mem hkey]
        exact List.mem_map_of_mem hw
  | @finalized st st' hget hid hclient =>
      have hmem := Table.mem_of_get hget
      refine ⟨[{ st' with state := .closed .normal }], rfl, fun _ h => List.mem_singleton.mp h ▸ rfl, List.nodup_singleton _,
        fun w hw => ?_, fun w hw => ?_, fun w hw => ?_⟩
      · obtain rfl := List.mem_singleton.mp hw
        intro hkeys
        obtain ⟨w, hw, hsame⟩ := List.mem_map.mp hkeys
        exact (Table.mem_delete.mp hw).2 hsame
      · rcases List.mem_append.mp hw with hw | hw
        · obtain rfl := List.mem_singleton.mp hw
          exact ⟨st, hmem, hid, hclient⟩
        · exact ⟨w, (Table.mem_delete.mp hw).1, rfl, rfl⟩
      · by_cases hsame : w.id = st'.id
        · exact .inr ⟨_, List.mem_singleton_self _, hsame.symm⟩
        · exact .inl (List.mem_map_of_mem (Table.mem_delete.mpr ⟨hw, hsame⟩))

theorem HandleMoves.leaves {takes : Bool} (h : HandleMoves takes m m') : ∃ new, Leaves m m' new := by
  induction h with
  | refl => exact ⟨[], .refl m⟩
  | tail _ hmove ih =>
      obtain ⟨new, hnew⟩ := ih
      obtain ⟨new', hnew'⟩ := hmove.leaves
      exact ⟨new ++ new', hnew.trans hnew'⟩

/-! ### Handles are known by their ids -/

/-- The client streams that are known. -/
def clients (m : Manager) : List ManagedStream := m.known.filter fun st => st.isPushPromise = false

theorem mem_clients {st : ManagedStream} : st ∈ m.clients ↔ st ∈ m.known ∧ st.isPushPromise = false := by
  rw [clients, List.mem_filter, decide_eq_true_eq]

theorem clients_eq (m : Manager) :
    m.clients = (m.retired.filter fun st => st.isPushPromise = false) ++ m.streams.entries.filter fun st => st.isPushPromise = false :=
  List.filter_append _ _

theorem mem_of_handle {st : ManagedStream} (h : m.handle id = some st) : st ∈ m.clients ∧ st.id = id := by
  have hfound : st.id = id ∧ st.isPushPromise = false := by simpa using List.find?_some h
  exact ⟨mem_clients.mpr ⟨List.mem_of_find?_eq_some h, hfound.2⟩, hfound.1⟩

structure HandlesDistinct (m : Manager) : Prop where
  distinct : (m.clients.map ManagedStream.id).Nodup
  bounded : ∀ st ∈ m.clients, st.id < m.nextStreamId

theorem HandlesDistinct.apart (h : HandlesDistinct m) {st w : ManagedStream} (hst : st ∈ m.retired) (hw : w ∈ m.streams.entries)
    (hclient : st.isPushPromise = false) (hclient' : w.isPushPromise = false) : st.id ≠ w.id := by
  have hdistinct := h.distinct
  rw [clients_eq, List.map_append] at hdistinct
  apply (List.nodup_append.mp hdistinct).2.2
  · exact List.mem_map_of_mem (List.mem_filter.mpr ⟨hst, decide_eq_true hclient⟩)
  · exact List.mem_map_of_mem (List.mem_filter.mpr ⟨hw, decide_eq_true hclient'⟩)

theorem HandlesDistinct.closeReason_iff (h : HandlesDistinct m) {reason : StreamCloseReason} :
    m.closeReason id = some reason ↔ ∃ st ∈ m.clients, st.id = id ∧ st.state = .closed reason := by
  rw [closeReason, Option.bind_eq_some_iff]
  simp only [StreamState.closeReason_eq_some]
  constructor
  · rintro ⟨st, hhandle, hstate⟩
    obtain ⟨hst, hid⟩ := mem_of_handle hhandle
    exact ⟨st, hst, hid, hstate⟩
  · rintro ⟨st, hst, rfl, hstate⟩
    refine ⟨st, ?_, hstate⟩
    obtain ⟨hknown, hclient⟩ := mem_clients.mp hst
    cases hhandle : m.handle st.id with
    | none => exact absurd (decide_eq_true ⟨rfl, hclient⟩) (List.find?_eq_none.mp hhandle st hknown)
    | some w =>
        obtain ⟨hw, hid⟩ := mem_of_handle hhandle
        rw [List.inj_on_of_nodup_map h.distinct hw hst hid]

theorem HandlesDistinct.leaves {new : List ManagedStream} (h : HandlesDistinct m) (hleaves : Leaves m m' new)
    (hnext : m'.nextStreamId = m.nextStreamId) : HandlesDistinct m' := by
  have hknown : m'.clients =
      (m.retired.filter fun st => st.isPushPromise = false) ++ (new ++ m'.streams.entries).filter fun st => st.isPushPromise = false := by
    rw [clients, known, hleaves.retired, List.append_assoc, List.filter_append]
  have hcame : ∀ st ∈ (new ++ m'.streams.entries).filter (fun st => st.isPushPromise = false),
      ∃ w ∈ m.streams.entries, st.id = w.id ∧ w.isPushPromise = false := by
    intro st hst
    obtain ⟨hst, hclient⟩ := List.mem_filter.mp hst
    obtain ⟨w, hw, hid, hsame⟩ := hleaves.came st hst
    exact ⟨w, hw, hid, hsame ▸ of_decide_eq_true hclient⟩
  constructor
  · have hbefore := h.distinct
    rw [clients_eq, List.map_append] at hbefore
    rw [hknown, List.map_append]
    refine List.nodup_append.mpr ⟨(List.nodup_append.mp hbefore).1, ?_, ?_⟩
    · refine List.Nodup.sublist (List.filter_sublist.map _) ?_
      rw [List.map_append]
      refine List.nodup_append.mpr ⟨hleaves.distinct, m'.streams.nodup, ?_⟩
      rintro a ha b hb rfl
      obtain ⟨st, hst, rfl⟩ := List.mem_map.mp ha
      exact hleaves.gone st hst hb
    · rintro a ha b hb rfl
      obtain ⟨st, hst, rfl⟩ := List.mem_map.mp ha
      obtain ⟨st', hst', hid⟩ := List.mem_map.mp hb
      obtain ⟨w, hw, hid', hclient⟩ := hcame st' hst'
      obtain ⟨hst, hclient'⟩ := List.mem_filter.mp hst
      exact h.apart hst hw (of_decide_eq_true hclient') hclient (hid.symm.trans hid')
  · intro st hst
    rw [hknown] at hst
    rw [hnext]
    rcases List.mem_append.mp hst with hst | hst
    · exact h.bounded st (by rw [clients_eq]; exact List.mem_append_left _ hst)
    · obtain ⟨w, hw, hid, hclient⟩ := hcame st hst
      rw [hid]
      exact h.bounded w (mem_clients.mpr ⟨List.mem_append_right _ hw, hclient⟩)

theorem Inserts.known_perm {st : ManagedStream} (h : Inserts m st m') : m'.known.Perm (st :: m.known) := by
  rw [known, known, h.retired, h.streams, List.append_assoc]
  have hdisplaced : ((m.streams.get st.id).toList ++ (m.streams.set st).entries).Perm (st :: m.streams.entries) := by
    cases hget : m.streams.get st.id with
    | none =>
        apply Table.set_perm_of_not_mem
        rw [Table.mem_keys_iff, hget]
        exact fun ⟨_, h⟩ => Option.some_ne_none _ h.symm
    | some w =>
        have hid : w.id = st.id := Table.key_of_get hget
        have hset := (m.streams.set_perm st).cons w
        have hw := Table.perm_cons_delete (hid ▸ hget : m.streams.get w.id = some w)
        rw [hid] at hw
        exact hset.trans ((List.Perm.swap _ _ _).trans (hw.symm.cons st))
  exact (hdisplaced.append_left _).trans List.perm_middle

theorem HandlesDistinct.inserts {st : ManagedStream} (h : HandlesDistinct m) (hinserts : Inserts m st m')
    (hclient : st.isPushPromise = false → st.id = m.nextStreamId ∧ m.nextStreamId < m'.nextStreamId)
    (hnext : m.nextStreamId ≤ m'.nextStreamId) : HandlesDistinct m' := by
  have hperm := hinserts.known_perm.filter fun st => st.isPushPromise = false
  cases hpush : st.isPushPromise with
  | true =>
      rw [List.filter_cons_of_neg (by rw [hpush]; decide)] at hperm
      exact ⟨(hperm.map _).nodup_iff.mpr h.distinct, fun w hw => (h.bounded w (hperm.mem_iff.mp hw)).trans_le hnext⟩
  | false =>
      obtain ⟨hid, hlt⟩ := hclient hpush
      rw [List.filter_cons_of_pos (by rw [hpush]; rfl)] at hperm
      constructor
      · refine (hperm.map _).nodup_iff.mpr (List.nodup_cons.mpr ⟨fun hmem => ?_, h.distinct⟩)
        obtain ⟨w, hw, hsame⟩ := List.mem_map.mp hmem
        exact absurd (h.bounded w hw) (by rw [hsame, hid]; exact Nat.lt_irrefl _)
      · intro w hw
        rcases List.mem_cons.mp (hperm.mem_iff.mp hw) with rfl | hw
        · rwa [hid]
        · exact (h.bounded w hw).trans hlt

theorem step_handlesDistinct (h : HandlesDistinct m) (op : ManagerOp) : HandlesDistinct (m.step op) := by
  have hnext := step_nextStreamId m op
  cases hop : m.creates op with
  | none =>
      obtain ⟨new, hleaves⟩ := (step_handleMoves hop).leaves
      have hopen : op ≠ .openStream := by
        rintro rfl
        exact Option.some_ne_none _ hop
      exact h.leaves hleaves (hnext.trans (if_neg hopen))
  | some id =>
      obtain ⟨st, hinserts, hid, hpush, -⟩ := step_inserts hop
      refine h.inserts hinserts (fun hclient => ?_) ?_
      · obtain rfl : op = .openStream := not_not.mp (of_decide_eq_false (hpush.symm.trans hclient))
        exact ⟨hid.trans (Option.some.inj hop).symm, by rw [hnext, if_pos rfl]; omega⟩
      · rw [hnext]
        split <;> omega

theorem run_handlesDistinct (ops : List ManagerOp) : HandlesDistinct (run ops) := by
  induction ops using List.reverseRecOn with
  | nil => exact ⟨List.nodup_nil, fun _ h => absurd h List.not_mem_nil⟩
  | append_singleton ops op ih =>
      rw [run_concat]
      exact step_handlesDistinct ih op

/-! ### Ends -/

theorem any_client_iff : ((m.streams.get id).any fun st => !st.isPushPromise) = true ↔ m.HasClient id := by
  simp only [Option.any_eq_true, Bool.not_eq_true', HasClient]

theorem handleRstStream_keys (m : Manager) (frame : RstStreamFrame) :
    (m.handleRstStream frame).streams.keys = m.streams.keys.filter (· ≠ frame.streamId) := by
  rw [handleRstStream]
  split
  · rename_i hget
    refine (List.filter_eq_self.mpr fun id hid => decide_eq_true ?_).symm
    rintro rfl
    obtain ⟨st, hst⟩ := Table.mem_keys_iff.mp hid
    exact Option.some_ne_none _ (hst.symm.trans hget)
  · rename_i st hget
    rw [rejectStream_streams, Table.keys_delete, Table.key_of_get hget]

theorem handleGoaway_keys (m : Manager) (frame : GoawayFrame) :
    (m.handleGoaway frame).streams.keys = m.streams.keys.filter (· ≤ frame.lastStreamId) := by
  rw [Table.keys, Table.keys, (handleGoaway_rejects m frame).1, List.filter_map]
  simp only [Nat.not_lt]
  rfl

theorem isSome_ite_none {p : Prop} [Decidable p] {cause : StreamCloseReason} :
    (if p then none else some cause).isSome = true ↔ ¬p := by
  split
  · rename_i hp
    exact ⟨fun h => absurd h Bool.false_ne_true, fun h => absurd hp h⟩
  · rename_i hp
    exact ⟨fun _ => hp, fun _ => rfl⟩

theorem terminates_of_client (h : m.HasClient id) : m.terminates op id = m.cause id op := if_pos (any_client_iff.mpr h)

theorem terminates_of_not_client (h : ¬ m.HasClient id) : m.terminates op id = none := if_neg (mt any_client_iff.mp h)

theorem cause_other (hreset : ∀ frame, op ≠ .dispatch (.rstStream frame)) (hgoaway : ∀ frame, op ≠ .dispatch (.goaway frame)) :
    m.cause id op = if id ∈ (m.step op).streams.keys then none else some .normal := by
  rw [cause]
  · exact hreset
  · exact hgoaway

theorem cause_isSome (h : id ∈ m.streams.keys) : (m.cause id op).isSome ↔ id ∉ (m.step op).streams.keys := by
  cases op with
  | dispatch frame =>
      cases frame with
      | rstStream frame =>
          dsimp only [step, dispatch, cause]
          rw [handleRstStream_keys]
          by_cases hid : frame.streamId = id
          · simp [hid]
          · simp [hid, h, Ne.symm hid]
      | goaway frame =>
          dsimp only [step, dispatch, cause]
          rw [handleGoaway_keys]
          by_cases hlt : frame.lastStreamId < id
          · simp [hlt, Nat.not_le.mpr hlt]
          · simp [hlt, h, Nat.not_lt.mp hlt]
      | _ => exact isSome_ite_none
  | _ =>
      rw [cause_other (by simp) (by simp)]
      exact isSome_ite_none

theorem terminates_isSome : (m.terminates op id).isSome ↔ m.HasClient id ∧ id ∉ (m.step op).streams.keys := by
  by_cases hclient : m.HasClient id
  · rw [terminates_of_client hclient, and_iff_right hclient]
    obtain ⟨st, hget, -⟩ := hclient
    exact cause_isSome (Table.mem_keys_iff.mpr ⟨st, hget⟩)
  · rw [terminates_of_not_client hclient]
    exact ⟨fun h => absurd h Bool.false_ne_true, fun h => absurd h.1 hclient⟩

theorem retired_of_closed {st : ManagedStream} {reason : StreamCloseReason} (hst : st ∈ (run ops).clients)
    (hclosed : st.state = .closed reason) : st ∈ (run ops).retired := by
  obtain ⟨hknown, hclient⟩ := mem_clients.mp hst
  refine (List.mem_append.mp hknown).resolve_right fun htable => ?_
  have hstate := run_clientState ops st htable hclient
  rw [hclosed] at hstate
  split at hstate <;> exact absurd hstate (by simp)

/-- A closed stream stays as it is, and another closes normally when it is ended. -/
theorem closeReason_concat (ops : List ManagerOp) (op : ManagerOp) (id : StreamId) (reason : StreamCloseReason) :
    (run (ops ++ [op])).closeReason id = some reason ↔
      (run ops).closeReason id = some reason ∨ (reason = .normal ∧ ((run ops).terminates op id).isSome) := by
  have hclosed : ∀ st ∈ (run (ops ++ [op])).clients, st.state = .closed reason → st ∈ (run (ops ++ [op])).retired :=
    fun st hst hstate => retired_of_closed hst hstate
  rw [(run_handlesDistinct (ops ++ [op])).closeReason_iff, (run_handlesDistinct ops).closeReason_iff, terminates_isSome]
  rw [run_concat] at hclosed ⊢
  cases hop : (run ops).creates op with
  | none =>
      obtain ⟨new, hleaves⟩ := (step_handleMoves hop).leaves
      constructor
      · rintro ⟨st, hst, rfl, hstate⟩
        have hclient := (mem_clients.mp hst).2
        have hretired := hclosed st hst hstate
        rw [hleaves.retired] at hretired
        rcases List.mem_append.mp hretired with hold | hnew
        · exact .inl ⟨st, mem_clients.mpr ⟨List.mem_append_left _ hold, hclient⟩, rfl, hstate⟩
        · obtain ⟨w, hw, hid, hsame⟩ := hleaves.came st (List.mem_append_left _ hnew)
          refine .inr ⟨StreamState.closed.inj (hstate.symm.trans (hleaves.closed st hnew)), ⟨w, ?_, hsame.symm.trans hclient⟩,
            hleaves.gone st hnew⟩
          rw [hid, Table.get_of_mem hw]
      · rintro (⟨st, hst, rfl, hstate⟩ | ⟨rfl, ⟨w, hget, hclient⟩, hgone⟩)
        · refine ⟨st, mem_clients.mpr ⟨List.mem_append_left _ ?_, (mem_clients.mp hst).2⟩, rfl, hstate⟩
          rw [hleaves.retired]
          exact List.mem_append_left _ (retired_of_closed hst hstate)
        · obtain rfl := Table.key_of_get hget
          have hw := Table.mem_of_get hget
          obtain ⟨st, hnew, hid⟩ := (hleaves.left w hw).resolve_left hgone
          obtain ⟨w', hw', hid', hsame⟩ := hleaves.came st (List.mem_append_left _ hnew)
          obtain rfl := Table.key_injOn _ hw' hw (hid'.symm.trans hid)
          refine ⟨st, mem_clients.mpr ⟨List.mem_append_left _ ?_, hsame.trans hclient⟩, hid, hleaves.closed st hnew⟩
          rw [hleaves.retired]
          exact List.mem_append_right _ hnew
  | some id' =>
      obtain ⟨st', hinserts, -⟩ := step_inserts hop
      have hkeys : (run ops).HasClient id → id ∈ ((run ops).step op).streams.keys := by
        rintro ⟨w, hget, -⟩
        rw [hinserts.streams, Table.mem_keys_iff, Table.get_set]
        split
        · exact ⟨st', rfl⟩
        · exact ⟨w, hget⟩
      rw [or_iff_left fun h => h.2.2 (hkeys h.2.1)]
      refine exists_congr fun st => and_congr_left fun hof => ?_
      constructor
      · intro hst
        have hretired := hclosed st hst hof.2
        rw [hinserts.retired] at hretired
        refine mem_clients.mpr ⟨List.mem_append.mpr ?_, (mem_clients.mp hst).2⟩
        exact (List.mem_append.mp hretired).imp_right fun hdisplaced => Table.mem_of_get (Option.mem_toList.mp hdisplaced)
      · intro hst
        obtain ⟨hknown, hclient⟩ := mem_clients.mp hst
        exact mem_clients.mpr ⟨hinserts.known_perm.mem_iff.mpr (List.mem_cons_of_mem _ hknown), hclient⟩

theorem run_closeReason (ops : List ManagerOp) (id : StreamId) (reason : StreamCloseReason) :
    (run ops).closeReason id = some reason ↔ reason = .normal ∧ (firstCause ops id).isSome := by
  induction ops using List.reverseRecOn with
  | nil => simp [firstCause, firstCauseFrom, closeReason, handle, known, run, steps, create, Table.empty]
  | append_singleton ops op ih =>
      rw [closeReason_concat, ih, firstCause_concat, Option.isSome_or, Bool.or_eq_true, and_or_left]

theorem firstCause_of_terminates {cause : StreamCloseReason} (h : (run ops).terminates op id = some cause) :
    firstCause ops id = none := by
  obtain ⟨⟨w, hget, hclient⟩, -⟩ := terminates_isSome.mp (Option.isSome_of_eq_some h)
  by_contra hended
  have hreason := (run_closeReason ops id .normal).mpr ⟨rfl, Option.isSome_iff_ne_none.mpr hended⟩
  obtain ⟨st, hst, hid, hstate⟩ := (run_handlesDistinct ops).closeReason_iff.mp hreason
  exact (run_handlesDistinct ops).apart (retired_of_closed hst hstate) (Table.mem_of_get hget) (mem_clients.mp hst).2 hclient
    (hid.trans (Table.key_of_get hget).symm)

/-! ### The cause in the reason -/

/-- In every state of a run, a client stream that is closed says what ended it first, and says so from then on. -/
def ReasonsRecorded (ops : List ManagerOp) : Prop :=
  ∀ sofar, sofar <+: ops → ∀ id reason, (run sofar).closeReason id = some reason →
    firstCause sofar id = some reason ∧ (run ops).closeReason id = some reason

/-- The operation is no RST_STREAM of a client stream and no GOAWAY below one. -/
def EndsNormally (m : Manager) : ManagerOp → Prop
  | .dispatch (.rstStream frame) => ¬ m.HasClient frame.streamId
  | .dispatch (.goaway frame) => ∀ id, m.HasClient id → id ≤ frame.lastStreamId
  | _ => True

theorem eq_normal_of_ite {p : Prop} [Decidable p] {reason : StreamCloseReason} (h : (if p then none else some .normal) = some reason) :
    reason = .normal := by
  split at h
  · exact absurd h.symm (Option.some_ne_none _)
  · exact (Option.some.inj h).symm

theorem endsNormally_iff : m.EndsNormally op ↔ ∀ id reason, m.terminates op id = some reason → reason = .normal := by
  have hclients : (∀ id reason, m.terminates op id = some reason → reason = .normal) ↔
      ∀ id, m.HasClient id → ∀ reason, m.cause id op = some reason → reason = .normal := by
    refine forall_congr' fun id => ?_
    by_cases hclient : m.HasClient id
    · rw [terminates_of_client hclient, forall_prop_of_true hclient]
    · rw [terminates_of_not_client hclient]
      exact ⟨fun _ h => absurd h hclient, fun _ _ h => absurd h.symm (Option.some_ne_none _)⟩
  rw [hclients]
  cases op with
  | dispatch frame =>
      cases frame with
      | rstStream frame =>
          constructor
          · intro h id hclient reason hcause
            rw [cause, if_neg (by rintro rfl; exact h hclient)] at hcause
            exact absurd hcause.symm (Option.some_ne_none _)
          · intro h hclient
            exact absurd (h _ hclient _ (if_pos rfl)) (by simp)
      | goaway frame =>
          constructor
          · intro h id hclient reason hcause
            rw [cause, if_neg (Nat.not_lt.mpr (h id hclient))] at hcause
            exact absurd hcause.symm (Option.some_ne_none _)
          · intro h id hclient
            by_contra hlt
            exact absurd (h id hclient _ (if_pos (Nat.lt_of_not_le hlt))) (by simp)
      | _ => exact ⟨fun _ _ _ _ h => eq_normal_of_ite h, fun _ => trivial⟩
  | _ =>
      refine ⟨fun _ _ _ _ h => ?_, fun _ => trivial⟩
      rw [cause_other (by simp) (by simp)] at h
      exact eq_normal_of_ite h

theorem throughout_endsNormally_iff (ops : List ManagerOp) :
    Throughout step EndsNormally create ops ↔ ∀ id cause, firstCause ops id = some cause → cause = .normal := by
  induction ops using List.reverseRecOn with
  | nil => exact ⟨fun _ _ _ h => absurd h.symm (Option.some_ne_none _), fun _ => trivial⟩
  | append_singleton ops op ih =>
      rw [throughout_concat, ih, endsNormally_iff]
      constructor
      · rintro ⟨hbefore, hlast⟩ id cause hcause
        rw [firstCause_concat, Option.or_eq_some_iff] at hcause
        exact hcause.elim (hbefore id cause) fun h => hlast id cause h.2
      · intro h
        refine ⟨fun id cause hcause => h id cause ?_, fun id cause hcause => h id cause ?_⟩
        · rw [firstCause_concat, hcause, Option.some_or]
        · rw [firstCause_concat, firstCause_of_terminates hcause, Option.none_or]
          exact hcause

/-- In every run: the reasons record the causes exactly when no RST_STREAM and no GOAWAY ends a client stream. -/
theorem close_reason_recorded_iff (ops : List ManagerOp) : ReasonsRecorded ops ↔ Throughout step EndsNormally create ops := by
  rw [throughout_endsNormally_iff]
  constructor
  · intro h id cause hcause
    have hclosed := (run_closeReason ops id .normal).mpr ⟨rfl, Option.isSome_of_eq_some hcause⟩
    have hrecorded := (h ops List.prefix_rfl id .normal hclosed).1
    exact Option.some.inj (hcause.symm.trans hrecorded)
  · rintro h sofar ⟨after, rfl⟩ id reason hclosed
    obtain ⟨rfl, hended⟩ := (run_closeReason sofar id reason).mp hclosed
    obtain ⟨cause, hcause⟩ := Option.isSome_iff_exists.mp hended
    have hwhole : firstCause (sofar ++ after) id = some cause := by rw [firstCause_append, hcause, Option.some_or]
    obtain rfl := h id cause hwhole
    exact ⟨hcause, (run_closeReason _ id .normal).mpr ⟨rfl, Option.isSome_of_eq_some hwhole⟩⟩

/-- The peer resets a stream with CANCEL. -/
theorem reset_not_recorded : ¬ ReasonsRecorded [.openStream, .dispatch (.rstStream ⟨0, 1, 0x8⟩)] := by
  intro h
  have hrecorded := (h _ List.prefix_rfl 1 .normal (by decide +kernel)).1
  exact absurd hrecorded (by decide +kernel)

end Manager

end BrowsercoreHttp2
