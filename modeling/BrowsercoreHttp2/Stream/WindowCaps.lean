import BrowsercoreHttp2.Library.Runs
import BrowsercoreHttp2.Stream.FlowControl

/-!
# The cap on send windows

A send window may not exceed `2^31 - 1`. Windows grow on three paths: an increment for the connection, an increment
for one stream, and a new INITIAL_WINDOW_SIZE, which moves the windows of all streams at once. None of them looks at
the cap, so it holds as long as the peer respects it.
-/

namespace BrowsercoreHttp2

open Relation

def windowCap : Int := 2 ^ 31 - 1

namespace Manager

variable {m m' : Manager}

/-- The send window of the connection and those of the streams are within the cap. -/
structure WindowsCapped (m : Manager) : Prop where
  connection : m.connectionSendWindow ≤ windowCap
  streams : ∀ st ∈ m.streams.entries, st.localWindow.size ≤ windowCap

/-- The increment takes a window over the cap. Stream 0 stands for the connection. -/
def IncrementExceeds (m : Manager) (streamId : StreamId) (increment : Int) : Prop :=
  if streamId = 0 then windowCap < m.connectionSendWindow + increment
  else ∃ st ∈ m.streams.get streamId, windowCap < st.localWindow.size + increment

/-- The operation would take a window over the cap, or sets an INITIAL_WINDOW_SIZE that is over it. -/
def Exceeds (m : Manager) : ManagerOp → Prop
  | .dispatch (.windowUpdate frame) => m.IncrementExceeds frame.streamId frame.windowSizeIncrement
  | .applyWindowUpdate streamId increment => m.IncrementExceeds streamId increment
  | .dispatch (.settings frame) => ∃ value ∈ frame.initialWindowSize, windowCap < value ∨
      ∃ st ∈ m.streams.entries, windowCap < st.localWindow.size + (value - m.remoteInitialWindowSize)
  | _ => False

/-- The error an operation throws. -/
def thrown (m : Manager) : ManagerOp → Option JsError
  | .dispatch frame => (m.dispatch frame).2
  | _ => none

def sendWindows (m : Manager) : Int × List (StreamId × Int) :=
  (m.connectionSendWindow, m.streams.entries.map fun st => (st.id, st.localWindow.size))

/-- The operation is refused with an error, and adds nothing to a window. -/
def Refuses (m : Manager) (op : ManagerOp) : Prop := m.thrown op ≠ none ∧ (m.step op).sendWindows = m.sendWindows

/-- An operation keeps the windows within the cap, and what would take one over it is refused. -/
def CapsWindows (m : Manager) (op : ManagerOp) : Prop := (m.step op).WindowsCapped ∧ (m.Exceeds op → m.Refuses op)

/-! ### Moves of the windows -/

/-- The windows of new streams are within the cap as well. -/
structure Capped (m : Manager) : Prop extends WindowsCapped m where
  initial : m.remoteInitialWindowSize ≤ windowCap

theorem Capped.same (h : m.Capped) (hstreams : m'.streams = m.streams) (hconnection : m'.connectionSendWindow = m.connectionSendWindow)
    (hinitial : m'.remoteInitialWindowSize = m.remoteInitialWindowSize) : m'.Capped where
  connection := hconnection.le.trans h.connection
  streams st hst := h.streams st (hstreams ▸ hst)
  initial := hinitial.le.trans h.initial

theorem Capped.setStream (h : m.Capped) {st : ManagedStream} (hst : st.localWindow.size ≤ windowCap) : (m.setStream st).Capped where
  connection := h.connection
  streams st' hst' := by
    rcases Table.mem_set hst' with rfl | ⟨hmem, -⟩
    · exact hst
    · exact h.streams st' hmem
  initial := h.initial

theorem Capped.sends (h : m.Capped) (hsends : ReflTransGen SendsChunk m m') : m'.Capped := by
  induction hsends with
  | refl => exact h
  | @tail m₁ _ _ hchunk ih =>
      cases hchunk with
      | chunk st chunkLen isLast hget hpos hqueue hlimit hconnection hstream hlast =>
          have hwindow := ih.streams st (Table.mem_of_get hget)
          have hcapped := ih.connection
          have hspent : Capped { m₁.sendDataFrame st.id (st.sendQueue.take chunkLen) isLast with
              connectionSendWindow := m₁.connectionSendWindow - chunkLen } := by
            refine ⟨⟨?_, ih.streams⟩, ih.initial⟩
            dsimp only
            omega
          apply hspent.setStream
          dsimp only
          omega

theorem Capped.increment (h : m.Capped) {frame : WindowUpdateFrame} (hwithin : ¬ m.IncrementExceeds frame.streamId frame.windowSizeIncrement) :
    (m.handleWindowUpdate frame).Capped := by
  rw [IncrementExceeds] at hwithin
  rw [handleWindowUpdate]
  split
  · rename_i hconnection
    rw [if_pos hconnection] at hwithin
    refine Capped.sends ?_ (forEachStream_drainSendQueue_sends _)
    exact ⟨⟨Int.not_lt.mp hwithin, h.streams⟩, h.initial⟩
  · rename_i hconnection
    rw [if_neg hconnection] at hwithin
    split
    · exact h
    · rename_i st hget
      refine Capped.sends ?_ (drainSendQueue_sends (Table.get_set_self _ _))
      apply h.setStream
      exact Int.not_lt.mp fun hover => hwithin ⟨st, hget, hover⟩

theorem Capped.initialWindowSize (h : m.Capped) {value : Nat} (hvalue : value ≤ windowCap)
    (hmoved : ∀ st ∈ m.streams.entries, st.localWindow.size + (value - m.remoteInitialWindowSize) ≤ windowCap) :
    (m.applyInitialWindowSize value).Capped := by
  rw [applyInitialWindowSize]
  refine Capped.sends ?_ (forEachStream_drainSendQueue_sends _)
  have hmap := forEachStream_setStream { m with remoteInitialWindowSize := value } (fun st =>
    { st with localWindow := { st.localWindow with size := st.localWindow.size + (value - m.remoteInitialWindowSize) } }) fun _ => rfl
  rw [hmap]
  refine ⟨⟨h.connection, fun st' hst' => ?_⟩, hvalue⟩
  obtain ⟨st, hst, rfl⟩ := List.mem_map.mp hst'
  exact hmoved st hst

theorem Capped.settings (h : m.Capped) {entries : List (Nat × Nat)} (hascending : (entries.map Prod.fst).Pairwise (· < ·))
    (hwithin : ∀ value ∈ entries.lookup 0x4, value ≤ windowCap ∧
      ∀ st ∈ m.streams.entries, st.localWindow.size + (value - m.remoteInitialWindowSize) ≤ windowCap) :
    (entries.foldl (fun m entry => m.applyRemoteSetting entry.1 entry.2) m).Capped := by
  induction entries generalizing m with
  | nil => exact h
  | cons entry entries ih =>
      obtain ⟨key, value⟩ := entry
      rw [List.map_cons, List.pairwise_cons] at hascending
      rw [List.foldl_cons]
      by_cases hkey : key = 0x4
      · subst hkey
        obtain ⟨hvalue, hmoved⟩ := hwithin value (by rw [List.lookup_cons, beq_self_eq_true]; rfl)
        -- The keys are distinct, so the rest brings no INITIAL_WINDOW_SIZE.
        have hlast : entries.lookup 0x4 = none := List.lookup_eq_none_iff.mpr fun entry hentry => by
          have hlt := hascending.1 _ (List.mem_map_of_mem hentry)
          simpa using hlt.ne
        refine ih (h.initialWindowSize hvalue hmoved) hascending.2 fun other hother => ?_
        exact absurd (hlast.symm.trans hother).symm (Option.some_ne_none other)
      · obtain ⟨hstreams, hconnection, hinitial, -⟩ := applyRemoteSetting_quiet m value hkey
        have hlookup : List.lookup 0x4 ((key, value) :: entries) = List.lookup 0x4 entries := by
          rw [List.lookup_cons, beq_false_of_ne (Ne.symm hkey)]
        rw [hlookup] at hwithin
        apply ih (h.same hstreams hconnection hinitial) hascending.2
        rw [hstreams, hinitial]
        exact hwithin

/-! ### One operation -/

theorem Capped.step (h : m.Capped) {op : ManagerOp} (hwithin : ¬ m.Exceeds op) : (m.step op).Capped := by
  by_cases hscope : op.scope = .sends
  · cases op with
    | dispatch frame =>
        cases frame with
        | settings frame =>
            simp only [Manager.step, dispatch, handleSettings]
            split
            · exact h.same rfl rfl rfl
            · rename_i hack
              have hsettings : (m.applyRemoteSettings frame.settings).Capped := by
                apply h.settings frame.settings.ascending
                intro value hvalue
                have hbrought : value ∈ frame.initialWindowSize := by
                  rw [SettingsFrame.initialWindowSize, if_neg hack]
                  exact hvalue
                refine ⟨Int.not_lt.mp fun hover => hwithin ⟨value, hbrought, .inl hover⟩, fun st hst => ?_⟩
                exact Int.not_lt.mp fun hover => hwithin ⟨value, hbrought, .inr ⟨st, hst, hover⟩⟩
              exact hsettings.same rfl rfl rfl
        | windowUpdate frame => exact h.increment hwithin
        | _ => exact Scope.noConfusion hscope
    | sendData streamId data endStream =>
        simp only [Manager.step, sendData]
        split
        · exact h
        · rename_i st hget
          refine Capped.sends ?_ (drainSendQueue_sends (Table.get_set_self _ _))
          apply h.setStream
          have hwindow := h.streams st (Table.mem_of_get hget)
          split <;> split <;> exact hwindow
    | applyWindowUpdate streamId increment =>
        have hframe : ¬ m.IncrementExceeds (WindowUpdateFrame.mk 0 streamId increment).streamId increment := hwithin
        exact h.increment hframe
    | _ => exact Scope.noConfusion hscope
  · obtain ⟨hconnection, hinitial, -, -⟩ := step_limits m hscope
    refine ⟨⟨hconnection.le.trans h.connection, fun st' hst' => ?_⟩, hinitial.le.trans h.initial⟩
    rcases step_streams hst' with ⟨st, hst, hchanges⟩ | ⟨rfl, rfl⟩ | ⟨id, hchanges⟩
    · rw [hchanges.localWindow_eq hscope]
      exact h.streams st hst
    · exact h.initial
    · rw [hchanges.localWindow_eq (by decide)]
      exact (by decide : defaultInitialWindowSize ≤ windowCap)

theorem not_refuses_of_exceeds {op : ManagerOp} (h : m.Exceeds op) : ¬ m.Refuses op := by
  rintro ⟨hthrown, -⟩
  cases op with
  | dispatch frame =>
      cases frame with
      | settings frame => exact hthrown rfl
      | windowUpdate frame => exact hthrown rfl
      | _ => exact h
  | _ => exact hthrown rfl

theorem capsWindows_iff (h : m.Capped) (op : ManagerOp) : m.CapsWindows op ↔ ¬ m.Exceeds op := by
  constructor
  · exact fun hcaps hexceeds => not_refuses_of_exceeds hexceeds (hcaps.2 hexceeds)
  · exact fun hwithin => ⟨(h.step hwithin).toWindowsCapped, fun hexceeds => absurd hexceeds hwithin⟩

end Manager

open Manager in
/-- In every run: the send windows stay within the cap, and what would take one over it is refused, exactly when no
operation of the run would take one over it. -/
theorem send_windows_capped_iff (ops : List ManagerOp) :
    Throughout step CapsWindows create ops ↔ Throughout step (fun m op => ¬ m.Exceeds op) create ops := by
  apply throughout_congr (I := Capped)
  · exact ⟨⟨by decide, fun _ hst => absurd hst List.not_mem_nil⟩, by decide⟩
  · exact fun m op h => capsWindows_iff h op
  · exact fun m op h hcaps => h.step ((capsWindows_iff h op).mp hcaps)

/-- The largest increment a WINDOW_UPDATE can carry, on the connection. -/
def fullIncrement : ManagerOp := .dispatch (.windowUpdate ⟨0, 0, 2 ^ 31 - 1⟩)

open Manager in
/-- One WINDOW_UPDATE takes the connection's window over the cap, and nothing is thrown. -/
theorem fullIncrement_exceeds :
    ¬ Throughout step CapsWindows create [fullIncrement] ∧ (run [fullIncrement]).connectionSendWindow = 2 ^ 31 - 1 + 65535 ∧
      create.thrown fullIncrement = none := by
  have hwindow : (run [fullIncrement]).connectionSendWindow = 2 ^ 31 - 1 + 65535 := by decide
  refine ⟨fun h => ?_, hwindow, rfl⟩
  have hcapped := h.1.1.connection
  exact absurd (hwindow.symm.le.trans hcapped) (by decide)

end BrowsercoreHttp2
