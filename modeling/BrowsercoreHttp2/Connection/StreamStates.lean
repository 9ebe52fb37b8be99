import BrowsercoreHttp2.Connection.EndStream

/-!
# The states of client streams

A stream has two halves, and each side closes its own with END_STREAM. The manager follows the half of the
peer: a client stream of the table is half-closed remotely once `endStreamSeen` is set, and open before. It
does not follow its own half, since neither `sendHeaders` nor `drainSendQueue` writes a state, and it misses
an END_STREAM that comes on HEADERS that leave the block to CONTINUATION frames.
-/

namespace BrowsercoreHttp2

/-- The state of a stream of which it is known which sides have ended it and whether it was reset. -/
def StreamState.Fits (localEnded remoteEnded reset : Prop) : StreamState → Prop
  | .opened => ¬localEnded ∧ ¬remoteEnded ∧ ¬reset
  | .localHalfClosed => localEnded ∧ ¬remoteEnded ∧ ¬reset
  | .remoteHalfClosed => ¬localEnded ∧ remoteEnded ∧ ¬reset
  | .closed _ => localEnded ∧ remoteEnded ∨ reset
  | _ => False

namespace Manager

variable {m m' : Manager} {st st' : ManagedStream} {op : ManagerOp} {id : StreamId}

/-! ### What one operation records -/

/-- The operation records that the peer has ended the stream: it handles such a frame without an error. -/
def Records (m : Manager) (id : StreamId) : ManagerOp → Prop
  | .dispatch frame => (ManagerOp.dispatch frame).ends id ∧ (m.dispatch frame).2 = none
  | _ => False

theorem eq_of_settled (h : st' ∈ ((m.setStream st).maybeResolveResponse st).streams.entries) (hid : st'.id = st.id) :
    st' = st := by
  have hself : st' ∈ (m.streams.set st).entries := by
    rcases maybeResolveResponse_cases (m.setStream st) st with hsame | ⟨resolve, -, hdeleted, -⟩
    · rwa [hsame] at h
    · rw [hdeleted] at h
      exact (Table.mem_delete.mp h).1
  rcases Table.mem_set hself with hnew | ⟨-, hother⟩
  · exact hnew
  · exact absurd hid hother

/-- What a frame that ends a stream makes of it, if it stays in the table. -/
theorem ended_of_ends {frame : Frame} (hends : (ManagerOp.dispatch frame).ends id)
    (hst' : st' ∈ (m.step (.dispatch frame)).streams.entries) (hid : st'.id = id) :
    (m.dispatch frame).2 = none ∧ st'.endStreamSeen = true ∨
      (m.dispatch frame).2 ≠ none ∧ ∃ st ∈ m.streams.entries, st.id = id ∧ st'.endStreamSeen = st.endStreamSeen := by
  subst hid
  cases frame with
  | data frame =>
      obtain ⟨htarget, hflag⟩ := hends
      refine .inl ⟨rfl, ?_⟩
      have hhandled : st' ∈ (m.handleData frame).streams.entries := hst'
      cases hget : m.streams.get frame.streamId with
      | none =>
          rw [handleData, hget] at hhandled
          exact absurd htarget.symm (Table.get_eq_none_iff.mp hget st' hhandled)
      | some st =>
          obtain ⟨m₁, -, hrun⟩ := handleData_eq hget
          rw [hrun, if_pos hflag] at hhandled
          have hsame : ({ afterData st frame with endStreamSeen := true } : ManagedStream).transitionOnEndStream.id = st'.id := by
            rw [ManagedStream.transitionOnEndStream_id, ← htarget, ← Table.key_of_get hget, afterData_eq]
          rw [eq_of_settled hhandled hsame.symm]
          exact ManagedStream.transitionOnEndStream_endStreamSeen _
  | headers frame =>
      obtain ⟨htarget, hwhole, hflag⟩ := hends
      have hhandled : st' ∈ (m.handleHeaders frame).1.streams.entries := hst'
      change (m.handleHeaders frame).2 = none ∧ _ ∨ (m.handleHeaders frame).2 ≠ none ∧ _
      cases hget : m.streams.get frame.streamId with
      | none =>
          rw [handleHeaders, hget] at hhandled
          exact absurd htarget.symm (Table.get_eq_none_iff.mp hget st' hhandled)
      | some st =>
          have hkey : st.id = st'.id := (Table.key_of_get hget).trans htarget
          cases hdecode : (st.pushHeaderBytes frame.payload).decodePendingHeaders with
          | mk collected thrown =>
              obtain ⟨hid, -, hended⟩ := kept_of_decoded hdecode
              simp only [handleHeaders, hget, hwhole, Bool.not_true, Bool.false_eq_true, if_false, hdecode, hflag, if_true] at hhandled ⊢
              cases thrown with
              | some e =>
                  -- the block is written back without the mark it came with
                  dsimp only at hhandled ⊢
                  rcases Table.mem_set hhandled with rfl | ⟨-, hother⟩
                  · exact .inr ⟨Option.some_ne_none _, st, Table.mem_of_get hget, hkey, hended⟩
                  · exact absurd (hid.trans hkey).symm hother
              | none =>
                  dsimp only at hhandled ⊢
                  refine .inl ⟨rfl, ?_⟩
                  let ended : ManagedStream := { collected.promoteReserved with endStreamSeen := true }
                  have hpromoted : ended.id = st'.id := (ManagedStream.promoteReserved_id collected).trans (hid.trans hkey)
                  have hsame : ended.transitionOnEndStream.id = st'.id :=
                    (ManagedStream.transitionOnEndStream_id ended).trans hpromoted
                  rw [eq_of_settled hhandled hsame.symm]
                  exact ManagedStream.transitionOnEndStream_endStreamSeen _
  | _ => exact absurd hends id

/-- The stream was there before, and has ended if it had or the operation records it. -/
def Continues (m : Manager) (op : ManagerOp) (st' : ManagedStream) : Prop :=
  ∃ st ∈ m.streams.entries, st.id = st'.id ∧ st.isPushPromise = false ∧
    (st'.endStreamSeen = true ↔ st.endStreamSeen = true ∨ m.Records st'.id op)

/-- An operation that does not end the stream leaves it as it was. -/
theorem ended_of_not_ends (hst : st ∈ m.streams.entries) (hst' : st' ∈ (m.step op).streams.entries) (hid : st.id = st'.id)
    (hclient : st'.isPushPromise = false) (hopen : op ≠ .openStream) (hends : ¬ op.ends st'.id) (hended : st'.endStreamSeen = true) :
    st.endStreamSeen = true := by
  have hself : ∀ w ∈ m.streams.entries, w.id = st'.id → w = st :=
    fun w hw hw' => m.streams.key_injOn hw hst (hw'.trans hid.symm)
  cases hreplaces : m.replaces op with
  | none =>
      obtain ⟨w, hw, hsame, -, hmoved⟩ := (step_tableMoves hreplaces).comes st' hst'
      rw [← hself w hw hsame.symm]
      exact (hmoved hended).resolve_right (hsame ▸ hends)
  | some replaced =>
      cases op with
      | openStream => exact absurd rfl hopen
      | dispatch frame =>
          cases frame with
          | pushPromise frame =>
              obtain ⟨pushed, hchanges, hstreams⟩ := handlePushPromise_streams m frame
              have hmem : st' ∈ (m.streams.set pushed).entries := hstreams ▸ hst'
              rcases Table.mem_set hmem with rfl | ⟨hold, -⟩
              · exact absurd (hchanges.isPushPromise_eq.symm.trans hclient) (by simp [newPushStream, ManagedStream.create])
              · exact hself st' hold rfl ▸ hended
          | _ => exact absurd hreplaces.symm (Option.some_ne_none _)
      | expectResponse streamId resolve reject =>
          have hhandled : st' ∈ (m.expectResponse streamId resolve reject).streams.entries := hst'
          rw [expectResponse] at hhandled
          split at hhandled
          · exact hself st' hhandled rfl ▸ hended
          · rename_i w hget
            rcases Table.mem_set hhandled with rfl | ⟨hold, -⟩
            · exact hself w (Table.mem_of_get hget) rfl ▸ hended
            · exact hself st' hold rfl ▸ hended
      | _ => exact absurd hreplaces.symm (Option.some_ne_none _)

/-- A client stream after an operation has just been opened, or goes on. -/
theorem step_continues (hst' : st' ∈ (m.step op).streams.entries) (hclient : st'.isPushPromise = false) :
    op = .openStream ∧ st' = m.newClientStream ∨ m.Continues op st' := by
  rcases step_streams hst' with ⟨st, hst, hchanges⟩ | hopened | ⟨pushed, hchanges⟩
  · have hid : st.id = st'.id := hchanges.id_eq.symm
    refine or_iff_not_imp_left.mpr fun hopened => ⟨st, hst, hid, hchanges.isPushPromise_eq.symm.trans hclient, ?_⟩
    by_cases hends : op.ends st'.id
    · obtain ⟨frame, rfl⟩ : ∃ frame, op = .dispatch frame := by
        cases op with
        | dispatch frame => exact ⟨frame, rfl⟩
        | _ => exact absurd hends id
      rcases ended_of_ends hends hst' rfl with ⟨hfine, hended⟩ | ⟨hfails, w, hw, hsame, hkept⟩
      · exact iff_of_true hended (.inr ⟨hends, hfine⟩)
      · rw [hkept, m.streams.key_injOn hw hst (hsame.trans hid.symm)]
        exact (or_iff_left fun hrecords => hfails hrecords.2).symm
    · have hnot : ¬ m.Records st'.id op := by
        cases op with
        | dispatch frame => exact fun hrecords => hends hrecords.1
        | _ => exact id
      rw [or_iff_left hnot]
      refine ⟨fun hended => ?_, hchanges.endStreamSeen⟩
      by_cases hopen : op = .openStream
      · subst hopen
        rcases Table.mem_set hst' with rfl | ⟨hold, -⟩
        · exact absurd ⟨rfl, rfl⟩ hopened
        · exact m.streams.key_injOn hold hst hid.symm ▸ hended
      · exact ended_of_not_ends hst hst' hid hclient hopen hends hended
  · exact .inl hopened
  · exact absurd (hchanges.isPushPromise_eq.symm.trans hclient) (by simp [newPushStream, ManagedStream.create])

end Manager

namespace Manager

variable {m : Manager} {st' : ManagedStream} {ops : List ManagerOp}

/-- Operations that handle no frame leave a client stream as it was, or have opened it. -/
theorem steps_continues (hops : ∀ frame, .dispatch frame ∉ ops) (hst' : st' ∈ (m.steps ops).streams.entries)
    (hclient : st'.isPushPromise = false) :
    m.nextStreamId ≤ st'.id ∧ st'.endStreamSeen = false ∨
      ∃ st ∈ m.streams.entries, st.id = st'.id ∧ st.isPushPromise = false ∧ st.endStreamSeen = st'.endStreamSeen := by
  induction ops using List.reverseRecOn generalizing st' with
  | nil => exact .inr ⟨st', hst', rfl, hclient, rfl⟩
  | append_singleton ops op ih =>
      rw [steps_concat] at hst'
      have hquiet : ∀ id, ¬ (m.steps ops).Records id op := by
        intro id hrecords
        cases op with
        | dispatch frame => exact hops frame (List.mem_append_right ops List.mem_cons_self)
        | _ => exact hrecords
      rcases step_continues hst' hclient with ⟨-, rfl⟩ | ⟨st, hst, hid, hstClient, hended⟩
      · exact .inl ⟨steps_nextStreamId_le m ops, rfl⟩
      · have hsame : st.endStreamSeen = st'.endStreamSeen := Bool.eq_iff_iff.mpr (hended.trans (or_iff_left (hquiet _))).symm
        rcases ih (fun frame hmem => hops frame (List.mem_append_left _ hmem)) hst hstClient with
          ⟨hle, hnew⟩ | ⟨w, hw, hwid, hwclient, hwsame⟩
        · exact .inl ⟨hid ▸ hle, hsame ▸ hnew⟩
        · exact .inr ⟨w, hw, hwid.trans hid, hwclient, hwsame.trans hsame⟩

end Manager

namespace Http2Connection

variable {options : Http2Options} {s : List ConnectionStep} {a : ConnectionStep} {id : StreamId} {st : ManagedStream}

/-! ### What a run has received -/

/-- In the run, the read loop has taken up such a frame in such a state. -/
def Received (P : Http2Connection → Frame → Prop) (options : Http2Options) (s : List ConnectionStep) : Prop :=
  ∃ before frame after, s = before ++ .receiveFrame frame :: after ∧ (run options before).reading = true ∧ P (run options before) frame

theorem received_concat (P : Http2Connection → Frame → Prop) :
    Received P options (s ++ [a]) ↔
      Received P options s ∨ ∃ frame, a = .receiveFrame frame ∧ (run options s).reading = true ∧ P (run options s) frame := by
  constructor
  · rintro ⟨before, frame, after, heq, hreading, hP⟩
    rcases List.eq_nil_or_concat' after with rfl | ⟨front, last, rfl⟩
    · obtain ⟨rfl, hlast⟩ := List.append_inj' heq rfl
      exact .inr ⟨frame, List.singleton_inj.mp hlast, hreading, hP⟩
    · have hsplit : s = before ++ .receiveFrame frame :: front := by
        have hshape : before ++ .receiveFrame frame :: (front ++ [last]) =
            (before ++ .receiveFrame frame :: front) ++ [last] := by simp
        exact (List.append_inj' (heq.trans hshape) rfl).1
      exact .inl ⟨before, frame, front, hsplit, hreading, hP⟩
  · rintro (⟨before, frame, after, rfl, hreading, hP⟩ | ⟨frame, rfl, hreading, hP⟩)
    · exact ⟨before, frame, after ++ [a], by simp, hreading, hP⟩
    · exact ⟨s, frame, [], rfl, hreading, hP⟩

theorem Received.mono {P Q : Http2Connection → Frame → Prop} (h : Received P options s)
    (himp : ∀ c frame, P c frame → Q c frame) :
    Received Q options s := by
  obtain ⟨before, frame, after, heq, hreading, hP⟩ := h
  exact ⟨before, frame, after, heq, hreading, himp _ _ hP⟩

/-- The peer has ended the client stream. -/
def EndReceived (options : Http2Options) (s : List ConnectionStep) (id : StreamId) : Prop :=
  Received (fun c frame => c.manager.HasClient id ∧ frame.endsStream id = true) options s

/-- The peer has reset the client stream. -/
def ResetReceived (options : Http2Options) (s : List ConnectionStep) (id : StreamId) : Prop :=
  Received (fun c frame => c.manager.HasClient id ∧ ∃ reset, frame = .rstStream reset ∧ reset.streamId = id) options s

/-- The peer has ended the client stream with a frame that is handled without an error and ends the block it is
part of. -/
def EndRecorded (options : Http2Options) (s : List ConnectionStep) (id : StreamId) : Prop :=
  Received (fun c frame => c.manager.HasClient id ∧ c.manager.Records id (.dispatch frame)) options s

theorem endReceived_of_recorded (h : EndRecorded options s id) : EndReceived options s id := by
  refine h.mono fun c frame ⟨hclient, hends, _⟩ => ⟨hclient, ?_⟩
  cases frame with
  | data frame => exact Bool.and_eq_true_iff.mpr ⟨decide_eq_true hends.1, decide_eq_true hends.2⟩
  | headers frame => exact Bool.and_eq_true_iff.mpr ⟨decide_eq_true hends.1, hends.2.2⟩
  | _ => exact absurd hends not_false

theorem lt_of_received {P : Http2Connection → Frame → Prop} (h : Received P options s)
    (hP : ∀ c frame, P c frame → c.manager.HasClient id) : id < (run options s).manager.nextStreamId := by
  obtain ⟨before, frame, after, rfl, -, hframe⟩ := h
  rw [run_append]
  exact (run_hasClient_lt options before (hP _ _ hframe)).trans_le (steps_advances _ _).nextStreamId_le

theorem receiveFrame_streams {c : Http2Connection} {frame : Frame} (hreading : c.reading = true)
    (hst : st ∈ (c.step (.receiveFrame frame)).manager.streams.entries) :
    st ∈ (c.manager.step (.dispatch frame)).streams.entries := by
  rw [step_manager, asks, if_pos hreading] at hst
  split at hst
  · split at hst
    · exact hst
    · exact absurd hst List.not_mem_nil
  · exact hst

/-- `endStreamSeen` is set on a client stream exactly if the end of the stream was recorded. -/
theorem run_ended_iff (options : Http2Options) (s : List ConnectionStep) :
    ∀ st ∈ (run options s).manager.streams.entries, st.isPushPromise = false →
      (st.endStreamSeen = true ↔ EndRecorded options s st.id) := by
  induction s using List.reverseRecOn with
  | nil => exact fun st hst => absurd hst List.not_mem_nil
  | append_singleton s a ih =>
      intro st' hst' hclient
      rw [EndRecorded, received_concat]
      rw [run_concat] at hst'
      by_cases hreads : ∃ frame, a = .receiveFrame frame ∧ (run options s).reading = true
      · obtain ⟨frame, rfl, hreading⟩ := hreads
        -- if an abort follows the frame no stream is left, so this is what the manager made of the frame alone
        rcases Manager.step_continues (receiveFrame_streams hreading hst') hclient with
          ⟨hopen, -⟩ | ⟨st, hst, hid, hstClient, hended⟩
        · exact absurd hopen (by simp)
        · have hpresent : (run options s).manager.HasClient st'.id := ⟨st, hid ▸ Table.get_of_mem hst, hstClient⟩
          rw [hended, ih st hst hstClient, hid]
          refine or_congr Iff.rfl ⟨fun hrecords => ⟨frame, rfl, hreading, hpresent, hrecords⟩, ?_⟩
          rintro ⟨frame', hframe, -, -, hrecords⟩
          exact ConnectionStep.receiveFrame.inj hframe ▸ hrecords
      · rw [or_iff_left fun ⟨frame, hframe, hreading, _⟩ => hreads ⟨frame, hframe, hreading⟩]
        have hquiet : ∀ frame, .dispatch frame ∉ (run options s).asks a := by
          intro frame hmem
          rcases asks_cases hmem with ⟨frame', rfl, -⟩ | ⟨err, hop⟩ | ⟨-, hop | ⟨call, hexecutor⟩⟩
          · have hreading : (run options s).reading = true := by
              by_contra hreading
              rw [asks, if_neg hreading] at hmem
              exact List.not_mem_nil hmem
            exact hreads ⟨frame', rfl, hreading⟩
          · exact absurd hop (by simp)
          · exact absurd hop (by simp)
          · rcases executorAsks_cases hexecutor with hop | hop <;> exact absurd hop (by simp)
        rw [step_manager] at hst'
        rcases Manager.steps_continues hquiet hst' hclient with ⟨hle, hnew⟩ | ⟨st, hst, hid, hstClient, hsame⟩
        · have hnone : ¬ EndRecorded options s st'.id := fun hrecorded =>
            absurd (lt_of_received hrecorded fun c frame h => h.1) (Nat.not_lt.mpr hle)
          exact iff_of_false (by rw [hnew]; exact Bool.false_ne_true) hnone
        · rw [← hsame, ih st hst hstClient, hid, EndRecorded]

/-- A client stream of the table has not been reset. -/
theorem run_not_resetReceived (options : Http2Options) (s : List ConnectionStep) (id : StreamId)
    (hclient : (run options s).manager.HasClient id) : ¬ ResetReceived options s id := by
  induction s using List.reverseRecOn with
  | nil =>
      rintro ⟨before, frame, after, heq, -⟩
      exact absurd heq (by simp)
  | append_singleton s a ih =>
      rw [ResetReceived, received_concat]
      rw [run_concat] at hclient
      rintro (hbefore | ⟨frame, rfl, hreading, -, reset, rfl, rfl⟩)
      · rcases step_hasClient hclient with hpresent | ⟨-, rfl⟩
        · exact ih hpresent hbefore
        · exact lt_irrefl _ (lt_of_received hbefore fun c frame h => h.1)
      · obtain ⟨st, hget, -⟩ := hclient
        have hmem := receiveFrame_streams hreading (Table.mem_of_get hget)
        have hhandled : st ∈ ((run options s).manager.handleRstStream reset).streams.entries := hmem
        have hid := Table.key_of_get hget
        rw [Manager.handleRstStream] at hhandled
        split at hhandled
        · rename_i hnone
          exact Table.get_eq_none_iff.mp hnone st hhandled hid
        · rename_i st' hget'
          dsimp only at hhandled
          rw [Manager.rejectStream_streams] at hhandled
          exact (Table.mem_delete.mp hhandled).2 (hid.trans (Table.key_of_get hget').symm)

/-- The state of a client stream as the standard has it. -/
def StateFits (options : Http2Options) (s : List ConnectionStep) (st : ManagedStream) : Prop :=
  st.state.Fits ((run options s).EndSent st.id) (EndReceived options s st.id)
    (ResetReceived options s st.id ∨ (run options s).ResetSent st.id)

end Http2Connection

open Http2Connection in
/-- The state of a client stream is right exactly if the client has not ended it and, if the peer has, that was recorded. -/
theorem client_state_fits_iff (options : Http2Options) (s : List ConnectionStep) (st : ManagedStream)
    (hget : (run options s).manager.streams.get st.id = some st) (hclient : st.isPushPromise = false) :
    StateFits options s st ↔
      ¬ (run options s).EndSent st.id ∧ (EndReceived options s st.id → EndRecorded options s st.id) := by
  have hreset : ¬ (ResetReceived options s st.id ∨ (run options s).ResetSent st.id) :=
    not_or.mpr ⟨run_not_resetReceived options s st.id ⟨st, hget, hclient⟩, run_not_resetSent options s st.id⟩
  have hended := run_ended_iff options s st (Table.mem_of_get hget) hclient
  have hstate : st.state = if st.endStreamSeen then .remoteHalfClosed else .opened := by
    obtain ⟨ops, hops⟩ := run_managed options s
    rw [hops] at hget
    exact Manager.run_clientState ops st (Table.mem_of_get hget) hclient
  rw [StateFits, hstate]
  cases hseen : st.endStreamSeen with
  | true =>
      have hrecorded := hended.mp hseen
      simp only [StreamState.Fits, endReceived_of_recorded hrecorded, hrecorded, hreset, if_true, not_false_eq_true, and_true,
        implies_true]
  | false =>
      have hunrecorded : ¬ EndRecorded options s st.id :=
        fun hrecorded => absurd (hended.mpr hrecorded) (by rw [hseen]; decide)
      simp only [StreamState.Fits, hunrecorded, hreset, Bool.false_eq_true, if_false, not_false_eq_true, and_true, imp_false]

open Http2Connection in
theorem client_state_fits_iff_blocked :
    StateFits {} blockedUpload blockedStream ↔
      ¬ (run {} blockedUpload).EndSent 1 ∧ (EndReceived {} blockedUpload 1 → EndRecorded {} blockedUpload 1) :=
  client_state_fits_iff {} blockedUpload blockedStream (by decide +kernel) rfl

open Http2Connection in
/-- The client has ended the stream and the peer has not, and the stream is still open. -/
theorem bodiless_request_stays_open :
    (run {} bodilessRequest).manager.streams.get 1 = some bodilessStream ∧ bodilessStream.isPushPromise = false ∧
      bodilessStream.state = .opened ∧ (run {} bodilessRequest).EndSent 1 ∧ ¬ StateFits {} bodilessRequest bodilessStream := by
  have hended : (run {} bodilessRequest).EndSent 1 := by
    rw [run_endSent_iff]
    decide +kernel
  exact ⟨by decide +kernel, rfl, rfl, hended, fun hfits => hfits.1 hended⟩

end BrowsercoreHttp2
