import BrowsercoreHttp2.Library.Runs
import BrowsercoreHttp2.Stream.FlowControl

/-!
# Receive-side credit

Only a DATA frame that arrives on a stream in the table is credited: its octets go back to the connection
and, while the stream is not closed, to the stream as well. A frame on any other stream is dropped before
it is credited, and an empty frame is credited with an increment of zero.
-/

namespace BrowsercoreHttp2

open ManagedStream

/-- The stream and the increment of a WINDOW_UPDATE that was sent. -/
def Effect.credit : Effect → Option (StreamId × Int)
  | .sendFrame (.windowUpdate frame) => some (frame.streamId, frame.windowSizeIncrement)
  | _ => none

def creditsIn (effects : List Effect) : List (StreamId × Int) := effects.filterMap Effect.credit

theorem creditsIn_append (effects effects' : List Effect) :
    creditsIn (effects ++ effects') = creditsIn effects ++ creditsIn effects' := List.filterMap_append

theorem forall_creditsIn_iff {P : StreamId × Int → Prop} {effects : List Effect} :
    (∀ credit ∈ creditsIn effects, P credit) ↔
      ∀ frame, .sendFrame (.windowUpdate frame) ∈ effects → P (frame.streamId, frame.windowSizeIncrement) := by
  constructor
  · intro h frame hmem
    exact h _ (List.mem_filterMap.mpr ⟨_, hmem, rfl⟩)
  · intro h credit hmem
    obtain ⟨effect, heffect, hcredit⟩ := List.mem_filterMap.mp hmem
    rw [Effect.credit.eq_def] at hcredit
    split at hcredit
    · rename_i frame
      rw [← Option.some.inj hcredit]
      exact h frame heffect
    · simp at hcredit

theorem creditsIn_of_allowed {scope : Scope} {new : List Effect} (h : ∀ effect ∈ new, effect.allowedIn scope = true)
    (hscope : scope ≠ .credits) : creditsIn new = [] := by
  refine List.filterMap_eq_nil_iff.mpr fun effect hmem => ?_
  rw [Effect.credit.eq_def]
  split
  · exact absurd (of_decide_eq_true (h _ hmem)) hscope
  · rfl

/-- What goes back for some octets on a stream: to the connection, and to the stream unless it is closed. -/
def ManagedStream.credits (st : ManagedStream) (octets : Nat) : List (StreamId × Int) :=
  match st.state with
  | .closed _ => [(0, octets)]
  | _ => [(0, octets), (st.id, octets)]

namespace Manager

/-- What an operation credits. -/
def credits (m : Manager) : ManagerOp → List (StreamId × Int)
  | .dispatch (.data frame) =>
      (m.streams.get frame.streamId).elim [] fun st => st.credits frame.payload.length
  | _ => []

theorem maybeResolveResponse_credits (m : Manager) (st : ManagedStream) :
    creditsIn (m.maybeResolveResponse st).effects = creditsIn m.effects := by
  obtain ⟨new, hnew, hallowed⟩ := ((Evolves.refl m : Evolves .quiet m m).maybeResolveResponse st).effects
  rw [hnew, creditsIn_append, creditsIn_of_allowed hallowed (by decide), List.append_nil]

theorem handleData_credits (m : Manager) (frame : DataFrame) :
    creditsIn (m.handleData frame).effects = creditsIn m.effects ++ m.credits (.dispatch (.data frame)) := by
  rw [handleData, credits]
  cases m.streams.get frame.streamId with
  | none => exact (List.append_nil _).symm
  | some st =>
      dsimp only
      have hsent : ∀ (m' : Manager) (st' : ManagedStream), m'.effects = m.effects → st'.id = st.id →
          creditsIn (match st.state with
            | .closed _ => m'.sendWindowUpdate 0 frame.payload.length
            | _ => (m'.sendWindowUpdate 0 frame.payload.length).sendWindowUpdate st'.id frame.payload.length).effects =
          creditsIn m.effects ++ st.credits frame.payload.length := by
        intro m' st' heffects hid
        rw [ManagedStream.credits]
        split
        · show creditsIn (m'.effects ++ [_]) = _
          rw [heffects, creditsIn_append]
          rfl
        · show creditsIn (m'.effects ++ [_] ++ [_]) = _
          rw [heffects, hid, creditsIn_append, creditsIn_append, List.append_assoc]
          rfl
      split
      · rw [maybeResolveResponse_credits]
        exact hsent _ _ rfl rfl
      · exact hsent _ _ rfl rfl

theorem step_credits (m : Manager) (op : ManagerOp) :
    creditsIn (m.step op).effects = creditsIn m.effects ++ m.credits op := by
  by_cases hdata : ∃ frame, op = .dispatch (.data frame)
  · obtain ⟨frame, rfl⟩ := hdata
    exact handleData_credits m frame
  · obtain ⟨new, hnew, hallowed⟩ := m.step_allowed op
    have hnone : m.credits op = [] ∧ op.scope ≠ .credits := by
      cases op with
      | dispatch frame =>
          cases frame with
          | data frame => exact absurd ⟨frame, rfl⟩ hdata
          | _ => exact ⟨rfl, by simp [ManagerOp.scope]⟩
      | _ => exact ⟨rfl, by simp [ManagerOp.scope]⟩
    rw [hnew, creditsIn_append, creditsIn_of_allowed hallowed hnone.2, hnone.1]

/-! ### Increments -/

/-- A DATA frame that would be credited has octets to credit. -/
def CreditsOctets (m : Manager) : ManagerOp → Prop
  | .dispatch (.data frame) => (m.streams.get frame.streamId).isSome → frame.payload ≠ []
  | _ => True

theorem credits_legal_iff (m : Manager) {op : ManagerOp}
    (hlength : ∀ frame, op = .dispatch (.data frame) → frame.payload.length < 2 ^ 24) :
    (∀ credit ∈ m.credits op, 1 ≤ credit.2 ∧ credit.2 ≤ 2 ^ 31 - 1) ↔ m.CreditsOctets op := by
  have hvacuous : m.credits op = [] → m.CreditsOctets op →
      ((∀ credit ∈ m.credits op, 1 ≤ credit.2 ∧ credit.2 ≤ 2 ^ 31 - 1) ↔ m.CreditsOctets op) := by
    intro hnone hholds
    rw [hnone]
    exact iff_of_true (fun _ hmem => absurd hmem List.not_mem_nil) hholds
  cases op with
  | dispatch frame =>
      cases frame with
      | data frame =>
          have hlt := hlength frame rfl
          rw [credits, CreditsOctets]
          cases hget : m.streams.get frame.streamId with
          | none => exact iff_of_true (fun _ hmem => absurd hmem List.not_mem_nil) fun hsome => absurd hsome (by decide)
          | some st =>
              have hall : (∀ credit ∈ st.credits frame.payload.length, 1 ≤ credit.2 ∧ credit.2 ≤ 2 ^ 31 - 1) ↔
                  (1 : Int) ≤ frame.payload.length ∧ (frame.payload.length : Int) ≤ 2 ^ 31 - 1 := by
                rw [ManagedStream.credits]
                split
                · exact List.forall_mem_singleton
                · rw [List.forall_mem_cons, List.forall_mem_singleton, and_self_iff]
              show (∀ credit ∈ st.credits frame.payload.length, _) ↔ (true = true → _)
              rw [hall, ← List.length_pos_iff]
              constructor
              · intro hlegal _
                omega
              · intro hpos
                have := hpos rfl
                omega
      | _ => exact hvacuous rfl trivial
  | _ => exact hvacuous rfl trivial

end Manager

/-- In every run all window updates the manager sends carry a legal increment exactly when no empty DATA frame
arrives on a stream in the table. -/
theorem window_updates_legal_iff (ops : List ManagerOp)
    (hlength : ∀ frame, .dispatch (.data frame) ∈ ops → frame.payload.length < 2 ^ 24) :
    (∀ frame, .sendFrame (.windowUpdate frame) ∈ (Manager.run ops).effects →
        1 ≤ frame.windowSizeIncrement ∧ frame.windowSizeIncrement ≤ 2 ^ 31 - 1) ↔
      Throughout Manager.step Manager.CreditsOctets .create ops := by
  rw [← forall_creditsIn_iff (P := fun credit => 1 ≤ credit.2 ∧ credit.2 ≤ 2 ^ 31 - 1)]
  induction ops using List.reverseRecOn with
  | nil => exact iff_of_true (fun _ hmem => absurd hmem List.not_mem_nil) trivial
  | append_singleton ops op ih =>
      have hbefore := ih fun frame hmem => hlength frame (List.mem_append_left [op] hmem)
      have hnow := fun frame (hop : op = .dispatch (.data frame)) =>
        hlength frame (hop ▸ List.mem_append_right ops List.mem_cons_self)
      rw [Manager.run_concat, Manager.step_credits, List.forall_mem_append, hbefore, Manager.credits_legal_iff _ hnow,
        throughout_concat]
      rfl

/-- A response whose body ends with its last octets. -/
theorem window_updates_legal_iff_body :
    (∀ frame, .sendFrame (.windowUpdate frame) ∈
          (Manager.run [.openStream, .dispatch (.data ⟨0x1, 1, [0x61]⟩)]).effects →
        1 ≤ frame.windowSizeIncrement ∧ frame.windowSizeIncrement ≤ 2 ^ 31 - 1) ↔
      Throughout Manager.step Manager.CreditsOctets .create [.openStream, .dispatch (.data ⟨0x1, 1, [0x61]⟩)] :=
  window_updates_legal_iff _ fun frame hmem => by
    rcases List.mem_cons.mp hmem with hopen | hdata
    · simp at hopen
    · obtain rfl : frame = ⟨0x1, 1, [0x61]⟩ := by simpa using hdata
      decide

/-- A response that ends with an empty DATA frame is credited with zero octets. -/
theorem empty_data_credited :
    ¬ ∀ frame, .sendFrame (.windowUpdate frame) ∈ (Manager.run [.openStream, .dispatch (.data ⟨0x1, 1, []⟩)]).effects →
      1 ≤ frame.windowSizeIncrement ∧ frame.windowSizeIncrement ≤ 2 ^ 31 - 1 := by
  intro hlegal
  have hzero := (hlegal ⟨0, 0, 0⟩ (by decide +kernel)).1
  exact absurd hzero (by decide)

/-! ### Conservation -/

/-- The octets credited to the connection. -/
def connectionCredit (effects : List Effect) : Int := (((creditsIn effects).filter fun credit => credit.1 = 0).map Prod.snd).sum

/-- The octets of the DATA frames among some operations, padding included. -/
def ManagerOp.dataReceived : ManagerOp → Nat
  | .dispatch (.data frame) => frame.payload.length
  | _ => 0

def dataReceived (ops : List ManagerOp) : Nat := (ops.map ManagerOp.dataReceived).sum

namespace Manager

/-- A DATA frame has no octets, or arrives on a stream in the table. Stream 0, which only a push can create, has
to be closed, or the connection is credited for it once more. -/
def CreditsConnection (m : Manager) : ManagerOp → Prop
  | .dispatch (.data frame) => frame.payload = [] ∨
      ∃ st, m.streams.get frame.streamId = some st ∧ (frame.streamId = 0 → ∃ reason, st.state = .closed reason)
  | _ => True

theorem credits_connection_iff (m : Manager) (op : ManagerOp) :
    (((m.credits op).filter fun credit => credit.1 = 0).map Prod.snd).sum = op.dataReceived ↔ m.CreditsConnection op := by
  cases op with
  | dispatch frame =>
      cases frame with
      | data frame =>
          rw [credits, CreditsConnection, ManagerOp.dataReceived]
          cases hget : m.streams.get frame.streamId with
          | none =>
              show (0 : Int) = frame.payload.length ↔ _
              rw [← List.length_eq_zero_iff]
              constructor
              · intro hzero
                exact .inl (by omega)
              · rintro (hempty | ⟨st, hst, -⟩)
                · omega
                · simp at hst
          | some st =>
              have hid := Table.key_of_get hget
              show ((((st.credits frame.payload.length).filter fun credit => credit.1 = 0).map Prod.snd).sum : Int) = _ ↔ _
              rw [ManagedStream.credits, ← List.length_eq_zero_iff]
              split
              · rename_i reason hclosed
                exact iff_of_true (by simp) (.inr ⟨st, rfl, fun _ => ⟨reason, hclosed⟩⟩)
              · rename_i hopen
                by_cases hconnection : st.id = 0
                · rw [List.filter_cons_of_pos (by simp), List.filter_cons_of_pos (by simp [hconnection])]
                  simp only [List.filter_nil, List.map_cons, List.map_nil, List.sum_cons, List.sum_nil]
                  constructor
                  · intro hdouble
                    exact .inl (by omega)
                  · rintro (hempty | ⟨st', hst', hclosed⟩)
                    · omega
                    · obtain rfl := Option.some.inj hst'
                      obtain ⟨reason, hreason⟩ := hclosed (hid.symm.trans hconnection)
                      exact absurd hreason (hopen reason)
                · refine iff_of_true ?_ (.inr ⟨st, rfl, fun hzero => absurd (hid.trans hzero) hconnection⟩)
                  simp [hconnection]
      | _ => exact iff_of_true rfl trivial
  | _ => exact iff_of_true rfl trivial

end Manager

/-- In every run the connection is credited with the octets received so far after each operation exactly when
every DATA frame with octets arrives on a stream in the table. -/
theorem connection_credit_conserved_iff (ops : List ManagerOp) :
    (∀ sofar, sofar <+: ops → connectionCredit (Manager.run sofar).effects = dataReceived sofar) ↔
      Throughout Manager.step Manager.CreditsConnection .create ops := by
  induction ops using List.reverseRecOn with
  | nil =>
      refine iff_of_true (fun sofar hprefix => ?_) trivial
      rw [List.prefix_nil.mp hprefix]
      rfl
  | append_singleton ops op ih =>
      have hsplit : (∀ sofar, sofar <+: ops ++ [op] → connectionCredit (Manager.run sofar).effects = dataReceived sofar) ↔
          (∀ sofar, sofar <+: ops → connectionCredit (Manager.run sofar).effects = dataReceived sofar) ∧
            connectionCredit (Manager.run (ops ++ [op])).effects = dataReceived (ops ++ [op]) := by
        simp only [List.prefix_concat_iff, forall_eq_or_imp]
        exact and_comm
      rw [hsplit, throughout_concat, ← ih]
      refine and_congr_right fun hbefore => ?_
      have hnow := hbefore ops List.prefix_rfl
      rw [← Manager.credits_connection_iff, Manager.run_concat, connectionCredit, Manager.step_credits, List.filter_append,
        List.map_append, List.sum_append, ← connectionCredit, hnow, dataReceived, dataReceived, List.map_append, List.sum_append,
        List.map_singleton, List.sum_singleton, Nat.cast_add]
      exact add_right_inj _

/-- The rest of a body that arrives after the stream was reset. -/
theorem late_data_uncredited :
    ¬ ∀ sofar, sofar <+: [.openStream, .dispatch (.rstStream ⟨0, 1, 5⟩), .dispatch (.data ⟨0, 1, [0x78]⟩)] →
      connectionCredit (Manager.run sofar).effects = dataReceived sofar := by
  intro hconserved
  have hlast := hconserved _ List.prefix_rfl
  exact absurd hlast (by decide +kernel)

end BrowsercoreHttp2
