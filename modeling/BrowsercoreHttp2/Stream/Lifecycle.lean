import BrowsercoreHttp2.Stream.Departures

/-!
# Every stream ends once

What a stream owes when it leaves the table (the announcement that it has closed, a call of one of its
callbacks) is paid when it leaves and at no other time. So what the streams of the table owe and what has
been paid add up to a number that no operation changes, except for those that create a stream or register
callbacks, which add to it.
-/

namespace BrowsercoreHttp2

open Relation

namespace Manager

variable {m m' : Manager} {op : ManagerOp}

/-! ### Ledgers -/

/-- What a stream of that id with those callbacks owes, and what each effect pays. -/
structure Ledger where
  owed : StreamId → Option Callback × Option Callback → Nat
  paid : Effect → Nat

namespace Ledger

variable (l : Ledger)

def debt (st : ManagedStream) : Nat := l.owed st.id st.callbacks

def total (effects : List Effect) : Nat := (effects.map l.paid).sum

/-- What is owed by the streams of the table and what has been paid. -/
def balance (m : Manager) : Nat := (m.streams.entries.map l.debt).sum + l.total m.effects

theorem total_append (effects effects' : List Effect) :
    l.total (effects ++ effects') = l.total effects + l.total effects' := by
  rw [total, List.map_append, List.sum_append, total, total]

/-- Only the end of a stream pays, and it pays what the stream owes. -/
structure Fair (P : StreamId → Option Callback × Option Callback → Prop) : Prop where
  quiet : ∀ effect, effect.ending = false → l.paid effect = 0
  settled : ∀ st resolve, P st.id st.callbacks → st.resolve = some resolve → l.total (settlement st resolve) = l.debt st
  rejected : ∀ st err, P st.id st.callbacks → l.total (rejection err st) = l.debt st

variable {l} {P : StreamId → Option Callback × Option Callback → Prop}

theorem Fair.total_of_quiet (hfair : l.Fair P) {effects : List Effect} (h : ∀ effect ∈ effects, effect.ending = false) :
    l.total effects = 0 := by
  apply List.sum_eq_zero
  intro paid hpaid
  obtain ⟨effect, heffect, rfl⟩ := List.mem_map.mp hpaid
  exact hfair.quiet effect (h effect heffect)

theorem balance_of_delete {st : ManagedStream} {new : List Effect} (hget : m.streams.get st.id = some st)
    (hstreams : m'.streams = m.streams.delete st.id) (heffects : m'.effects = m.effects ++ new) (hpaid : l.total new = l.debt st) :
    l.balance m' = l.balance m := by
  have hsum := ((Table.perm_cons_delete hget).map l.debt).sum_nat
  rw [List.map_cons, List.sum_cons] at hsum
  rw [balance, balance, hstreams, heffects, l.total_append, hpaid, hsum]
  omega

theorem balance_of_set {st st' : ManagedStream} (hget : m.streams.get st.id = some st) (hid : st'.id = st.id)
    (hstreams : m'.streams = m.streams.set st') (heffects : m'.effects = m.effects) :
    l.balance m' + l.debt st = l.balance m + l.debt st' := by
  have hsum := ((Table.perm_cons_delete hget).map l.debt).sum_nat
  have hsum' := ((m.streams.set_perm st').map l.debt).sum_nat
  rw [List.map_cons, List.sum_cons] at hsum hsum'
  rw [hid] at hsum'
  rw [balance, balance, hstreams, heffects, hsum, hsum']
  omega

theorem balance_of_insert {st : ManagedStream} (hnew : st.id ∉ m.streams.keys) (hstreams : m'.streams = m.streams.set st)
    (heffects : l.total m'.effects = l.total m.effects) : l.balance m' = l.balance m + l.debt st := by
  have hsum := ((Table.set_perm_of_not_mem hnew).map l.debt).sum_nat
  rw [List.map_cons, List.sum_cons] at hsum
  rw [balance, balance, hstreams, heffects, hsum]
  omega

theorem balance_of_tableMove (hmove : TableMove op m m') (hfair : l.Fair P) (h : ∀ st ∈ m.streams.entries, P st.id st.callbacks) :
    l.balance m' = l.balance m := by
  cases hmove with
  | aside new hstreams heffects hnew =>
      have hquiet : ∀ effect ∈ new, effect.ending = false :=
        fun effect heffect => Effect.ending_of_besides (hnew effect heffect)
      rw [balance, balance, hstreams, heffects, l.total_append, hfair.total_of_quiet hquiet, Nat.add_zero]
  | @written st st' hget hid hcallbacks _ =>
      have hset := @balance_of_set m (m.setStream st') l st st' hget hid rfl rfl
      have hsame : l.debt st' = l.debt st := by rw [debt, debt, hid, hcallbacks]
      omega
  | @settled st hget =>
      rcases maybeResolveResponse_cases m st with hsame | ⟨resolve, hresolve, hstreams, heffects⟩
      · rw [hsame]
      · exact balance_of_delete hget hstreams heffects (hfair.settled st resolve (h st (Table.mem_of_get hget)) hresolve)
  | @rejected st st' hget hid hcallbacks err =>
      have hstreams : (m.rejectStream st' err).streams = m.streams.delete st.id := by rw [rejectStream_streams, hid]
      have hsame : l.debt st' = l.debt st := by rw [debt, debt, hid, hcallbacks]
      have hP : P st'.id st'.callbacks := by
        rw [hid, hcallbacks]
        exact h st (Table.mem_of_get hget)
      exact balance_of_delete hget hstreams (rejectStream_effects m st' err) ((hfair.rejected st' err hP).trans hsame)

theorem balance_of_tableMoves (hmoves : TableMoves op m m') (hfair : l.Fair P) (h : ∀ st ∈ m.streams.entries, P st.id st.callbacks) :
    l.balance m' = l.balance m := by
  induction hmoves with
  | refl => rfl
  | tail hmoves hmove ih =>
      refine (balance_of_tableMove hmove hfair fun st' hst' => ?_).trans ih
      obtain ⟨st, hst, hid, hcallbacks, -⟩ := TableMoves.comes hmoves st' hst'
      rw [hid, hcallbacks]
      exact h st hst

end Ledger

/-! ### Closing -/

/-- A stream owes the announcement that it has closed. -/
def closings (id : StreamId) : Ledger where
  owed streamId _ := if streamId = id then 1 else 0
  paid effect := if effect = .emitEvent (.streamClosed id) then 1 else 0

theorem closings_fair (id : StreamId) : (closings id).Fair fun _ _ => True where
  quiet effect hquiet := by
    apply if_neg
    rintro rfl
    simp [Effect.ending] at hquiet
  settled st resolve _ _ := by
    rw [settlement]
    cases st.isPushPromise <;> simp [Ledger.total, Ledger.debt, closings]
  rejected st err _ := by
    rw [rejection]
    cases st.reject <;> simp [Ledger.total, Ledger.debt, closings]

/-! ### Calls -/

/-- The callbacks that `expectResponse` registered for a stream. -/
structure Registration where
  streamId : StreamId
  resolve : Callback
  reject : Callback
  deriving DecidableEq

/-- A stream owes a call of the callbacks it has. -/
def calls (x : Registration) : Ledger where
  owed _ callbacks := if callbacks = (some x.resolve, some x.reject) then 1 else 0
  paid
    | .resolve callback _ => if callback = x.resolve then 1 else 0
    | .reject callback _ => if callback = x.reject then 1 else 0
    | _ => 0

/-- No callbacks, or two that belong together as far as those of a registration are among them. -/
def Paired (x : Registration) (_ : StreamId) (callbacks : Option Callback × Option Callback) : Prop :=
  callbacks = (none, none) ∨
    ∃ resolve reject, callbacks = (some resolve, some reject) ∧ (resolve = x.resolve ↔ reject = x.reject)

theorem calls_fair (x : Registration) : (calls x).Fair (Paired x) where
  quiet effect hquiet := by
    cases effect with
    | resolve => simp [Effect.ending] at hquiet
    | reject => simp [Effect.ending] at hquiet
    | _ => rfl
  settled st resolve hpaired hresolve := by
    rcases hpaired with hnone | ⟨resolve', reject', hboth, hiff⟩
    · rw [ManagedStream.callbacks, hresolve] at hnone
      exact absurd (Prod.mk.inj hnone).1 (Option.some_ne_none resolve)
    · have hsame : resolve = resolve' := by
        rw [ManagedStream.callbacks, hresolve] at hboth
        exact Option.some.inj (Prod.mk.inj hboth).1
      subst hsame
      rw [settlement, Ledger.debt, hboth]
      by_cases hx : resolve = x.resolve
      · cases st.isPushPromise <;> simp [Ledger.total, calls, hx, hiff.mp hx]
      · cases st.isPushPromise <;> simp [Ledger.total, calls, hx]
  rejected st err hpaired := by
    rcases hpaired with hnone | ⟨resolve, reject, hboth, hiff⟩
    · have hreject : st.reject = none := (Prod.mk.inj hnone).2
      rw [rejection, Ledger.debt, hnone, hreject]
      rfl
    · have hreject : st.reject = some reject := (Prod.mk.inj hboth).2
      rw [rejection, Ledger.debt, hboth, hreject]
      by_cases hx : reject = x.reject
      · simp [Ledger.total, calls, hx, hiff.mpr hx]
      · simp [Ledger.total, calls, hx]

/-! ### Orderly runs -/

/-- The registration an operation asks for. -/
def registers : ManagerOp → Option Registration
  | .expectResponse streamId resolve reject => some ⟨streamId, resolve, reject⟩
  | _ => none

def registrations (ops : List ManagerOp) : List Registration := ops.filterMap registers

/-- The stream a PUSH_PROMISE promises. -/
def promised : ManagerOp → Option StreamId
  | .dispatch (.pushPromise frame) => some frame.promisedStreamId
  | _ => none

def promises (ops : List ManagerOp) : List StreamId := ops.filterMap promised

/-- Every promise is for an even id not promised before, and `expectResponse` is called once for a stream,
with callbacks of its own. -/
structure Orderly (ops : List ManagerOp) : Prop where
  promised_even : ∀ id ∈ promises ops, id % 2 = 0
  promised_once : (promises ops).Nodup
  expected_once : ((registrations ops).map Registration.streamId).Nodup
  resolvers : ((registrations ops).map Registration.resolve).Nodup
  rejecters : ((registrations ops).map Registration.reject).Nodup

variable {ops : List ManagerOp}

theorem registrations_concat (ops : List ManagerOp) (op : ManagerOp) :
    registrations (ops ++ [op]) = registrations ops ++ (registers op).toList := by
  rw [registrations, List.filterMap_append, registrations]
  cases hop : registers op <;> simp [hop]

theorem promises_concat (ops : List ManagerOp) (op : ManagerOp) :
    promises (ops ++ [op]) = promises ops ++ (promised op).toList := by
  rw [promises, List.filterMap_append, promises]
  cases hop : promised op <;> simp [hop]

theorem Orderly.init (h : Orderly (ops ++ [op])) : Orderly ops := by
  have hpromises : promises ops <+: promises (ops ++ [op]) := by
    rw [promises_concat]
    exact List.prefix_append _ _
  have hregistrations : (registrations ops).Sublist (registrations (ops ++ [op])) := by
    rw [registrations_concat]
    exact List.sublist_append_left _ _
  exact ⟨fun id hid => h.promised_even id (hpromises.subset hid), h.promised_once.sublist hpromises.sublist,
    h.expected_once.sublist (hregistrations.map _), h.resolvers.sublist (hregistrations.map _),
    h.rejecters.sublist (hregistrations.map _)⟩

/-- The stream an operation creates. -/
def creates (m : Manager) (op : ManagerOp) : Option StreamId := if op = .openStream then some m.nextStreamId else promised op

/-- An id that was given to a stream. -/
def Created (ops : List ManagerOp) (id : StreamId) : Prop := id ∈ promises ops ∨ id % 2 = 1 ∧ id < (run ops).nextStreamId

instance (ops : List ManagerOp) (id : StreamId) : Decidable (Created ops id) :=
  inferInstanceAs (Decidable (id ∈ promises ops ∨ id % 2 = 1 ∧ id < (run ops).nextStreamId))

theorem odd_lt_add_two {id next : Nat} (hodd : next % 2 = 1) :
    id % 2 = 1 ∧ id < next + 2 ↔ (id % 2 = 1 ∧ id < next) ∨ next = id := by omega

theorem created_concat (ops : List ManagerOp) (op : ManagerOp) (id : StreamId) :
    Created (ops ++ [op]) id ↔ Created ops id ∨ (run ops).creates op = some id := by
  rw [Created, Created, run_concat, step_nextStreamId, promises_concat, List.mem_append, Option.mem_toList, creates]
  split
  · rename_i hopen
    rw [odd_lt_add_two (run_nextStreamId_odd ops), hopen, Option.some_inj]
    simp [promised, or_assoc]
  · exact or_right_comm

theorem created_concat_of_none (hop : (run ops).creates op = none) (id : StreamId) :
    Created (ops ++ [op]) id ↔ Created ops id := by
  rw [created_concat, hop]
  exact or_iff_left (Option.some_ne_none id).symm

theorem Orderly.creates_new (h : Orderly (ops ++ [op])) {id : StreamId} (hop : (run ops).creates op = some id) :
    ¬ Created ops id := by
  rw [creates] at hop
  split at hop
  · -- the next odd id has not been given away, and promises are even
    obtain rfl := Option.some.inj hop
    rintro (hpromised | ⟨-, hlt⟩)
    · exact absurd (run_nextStreamId_odd ops) (by rw [h.init.promised_even _ hpromised]; decide)
    · exact Nat.lt_irrefl _ hlt
  · have hlast : promises (ops ++ [op]) = promises ops ++ [id] := by rw [promises_concat, hop, Option.toList_some]
    have hnodup := h.promised_once
    have heven := h.promised_even id (by rw [hlast]; exact List.mem_append_right _ List.mem_cons_self)
    rw [hlast] at hnodup
    rintro (hpromised | ⟨hodd, -⟩)
    · exact (List.nodup_append.mp hnodup).2.2 id hpromised id List.mem_cons_self rfl
    · exact absurd hodd (by rw [heven]; decide)

theorem step_kinds (m : Manager) (op : ManagerOp) :
    (∃ id, m.creates op = some id ∧ registers op = none) ∨
      (∃ streamId resolve reject, op = .expectResponse streamId resolve reject ∧ m.creates op = none) ∨
      (m.replaces op = none ∧ m.creates op = none ∧ registers op = none) := by
  cases op with
  | openStream => exact .inl ⟨m.nextStreamId, rfl, rfl⟩
  | dispatch frame =>
      cases frame with
      | pushPromise frame => exact .inl ⟨frame.promisedStreamId, rfl, rfl⟩
      | _ => exact .inr (.inr ⟨rfl, rfl, rfl⟩)
  | expectResponse streamId resolve reject => exact .inr (.inl ⟨streamId, resolve, reject, rfl, rfl⟩)
  | _ => exact .inr (.inr ⟨rfl, rfl, rfl⟩)

/-- What is created is a stream without callbacks, and it is only announced. -/
theorem step_creates {id : StreamId} (hop : m.creates op = some id) :
    ∃ st, st.id = id ∧ st.callbacks = (none, none) ∧ (m.step op).streams = m.streams.set st ∧
      ∃ new, (m.step op).effects = m.effects ++ new ∧ ∀ effect ∈ new, effect.ending = false := by
  rw [creates] at hop
  split at hop
  · rename_i hopen
    subst hopen
    exact ⟨m.newClientStream, Option.some.inj hop, rfl, rfl, [], (List.append_nil _).symm, fun _ h => absurd h List.not_mem_nil⟩
  · cases op with
    | dispatch frame =>
        cases frame with
        | pushPromise frame =>
            obtain ⟨st, hchanges, hstreams⟩ := handlePushPromise_streams m frame
            refine ⟨st, hchanges.id_eq.trans (Option.some.inj hop), hchanges.callbacks_eq (by decide), hstreams, ?_⟩
            rcases handlePushPromise_announces m frame with hsame | ⟨id, headers, hnew⟩
            · exact ⟨[], by rw [List.append_nil]; exact hsame, fun _ h => absurd h List.not_mem_nil⟩
            · exact ⟨_, hnew, fun _ h => List.mem_singleton.mp h ▸ rfl⟩
        | _ => exact absurd hop.symm (Option.some_ne_none _)
    | _ => exact absurd hop.symm (Option.some_ne_none _)

theorem Ledger.balance_of_creates {l : Ledger} {P : StreamId → Option Callback × Option Callback → Prop} {id : StreamId}
    (hfair : l.Fair P) (hop : m.creates op = some id) (hnew : id ∉ m.streams.keys) :
    l.balance (m.step op) = l.balance m + l.owed id (none, none) := by
  obtain ⟨st, rfl, hcallbacks, hstreams, new, heffects, hquiet⟩ := step_creates hop
  have htotal : l.total (m.step op).effects = l.total m.effects := by
    rw [heffects, l.total_append, hfair.total_of_quiet hquiet, Nat.add_zero]
  rw [balance_of_insert hnew hstreams htotal, debt, hcallbacks]

/-! ### Closed once -/

/-- Callbacks for a stream that is not there are rejected at once; otherwise the stream takes them. -/
theorem Ledger.balance_of_expectResponse (l : Ledger) (m : Manager) (streamId : StreamId) (resolve reject : Callback) :
    (streamId ∉ m.streams.keys ∧ l.balance (m.expectResponse streamId resolve reject) =
        l.balance m + l.paid (.reject reject (.http2 (.rstStream streamId 0x1)))) ∨
      ∃ st ∈ m.streams.entries, st.id = streamId ∧
        l.balance (m.expectResponse streamId resolve reject) + l.debt st = l.balance m + l.owed streamId (some resolve, some reject) := by
  rw [expectResponse]
  split
  · rename_i hget
    refine .inl ⟨fun hmem => ?_, ?_⟩
    · obtain ⟨st, hst, hid⟩ := List.mem_map.mp hmem
      exact Table.get_eq_none_iff.mp hget st hst hid
    · change _ + l.total (m.effects ++ [_]) = _ + l.total m.effects + _
      rw [l.total_append, Nat.add_assoc]
      rfl
  · rename_i st hget
    obtain rfl : st.id = streamId := Table.key_of_get hget
    have hset := @Ledger.balance_of_set m (m.setStream { st with resolve := some resolve, reject := some reject }) l st
      { st with resolve := some resolve, reject := some reject } hget rfl rfl rfl
    exact .inr ⟨st, Table.mem_of_get hget, rfl, hset⟩

/-! ### Closed once -/

theorem closings_balance_pos {id : StreamId} (h : id ∈ m.streams.keys) : 0 < (closings id).balance m := by
  obtain ⟨st, hst, rfl⟩ := List.mem_map.mp h
  have hmem : 1 ∈ m.streams.entries.map (closings st.id).debt := List.mem_map.mpr ⟨st, hst, if_pos rfl⟩
  exact Nat.add_pos_left (List.sum_pos_iff_exists_pos_nat.mpr ⟨1, hmem, Nat.one_pos⟩) _

theorem not_created_nil (id : StreamId) : ¬ Created [] id := by
  rintro (hpromised | ⟨hodd, hlt⟩)
  · exact List.not_mem_nil hpromised
  · obtain rfl := Nat.lt_one_iff.mp hlt
    exact absurd hodd (by decide)

theorem created_of_mem_keys {id : StreamId} (hbalance : (closings id).balance (run ops) = if Created ops id then 1 else 0)
    (h : id ∈ (run ops).streams.keys) : Created ops id := by
  by_contra hnew
  have hpos := closings_balance_pos h
  rw [hbalance, if_neg hnew] at hpos
  exact Nat.lt_irrefl 0 hpos

/-- A stream that was created is in the table or has been announced to have closed. -/
theorem run_closings (h : Orderly ops) : ∀ id, (closings id).balance (run ops) = if Created ops id then 1 else 0 := by
  induction ops using List.reverseRecOn with
  | nil => exact fun id => (if_neg (not_created_nil id)).symm
  | append_singleton ops op ih =>
      intro id
      have hbefore := ih h.init
      rw [run_concat]
      rcases step_kinds (run ops) op with ⟨id', hop, -⟩ | ⟨streamId, resolve, reject, rfl, hop⟩ | ⟨hmoves, hop, -⟩
      · have hnew : id' ∉ (run ops).streams.keys := fun hmem => h.creates_new hop (created_of_mem_keys (hbefore id') hmem)
        rw [Ledger.balance_of_creates (closings_fair id) hop hnew, hbefore]
        by_cases hid : id' = id
        · subst hid
          rw [if_neg (h.creates_new hop), if_pos ((created_concat ops op id').mpr (.inr hop))]
          simp [closings]
        · have hsame : Created (ops ++ [op]) id ↔ Created ops id := by
            rw [created_concat, hop, Option.some_inj, or_iff_left hid]
          simp [closings, hid, hsame]
      · rw [if_congr (created_concat_of_none hop id) rfl rfl, ← hbefore]
        rcases (closings id).balance_of_expectResponse (run ops) streamId resolve reject with ⟨-, hrejected⟩ | ⟨st, -, rfl, htaken⟩
        · exact hrejected
        · exact Nat.add_right_cancel htaken
      · rw [if_congr (created_concat_of_none hop id) rfl rfl, ← hbefore]
        exact Ledger.balance_of_tableMoves (step_tableMoves hmoves) (closings_fair id) fun _ _ => trivial

/-! ### Called once -/

/-- The callbacks of a stream were registered for it. -/
def Registered (registered : List Registration) (m : Manager) : Prop :=
  ∀ st ∈ m.streams.entries, st.callbacks = (none, none) ∨
    ∃ x ∈ registered, x.streamId = st.id ∧ st.callbacks = (some x.resolve, some x.reject)

theorem run_registered (ops : List ManagerOp) : Registered (registrations ops) (run ops) := by
  induction ops using List.reverseRecOn with
  | nil => exact fun st hst => absurd hst List.not_mem_nil
  | append_singleton ops op ih =>
      have hkept : Registered (registrations (ops ++ [op])) (run ops) := by
        intro st hst
        refine (ih st hst).imp_right fun ⟨x, hx, hsame⟩ => ⟨x, ?_, hsame⟩
        rw [registrations_concat]
        exact List.mem_append_left _ hx
      rw [run_concat]
      intro w hw
      rcases step_kinds (run ops) op with ⟨id, hop, -⟩ | ⟨streamId, resolve, reject, rfl, -⟩ | ⟨hmoves, -, -⟩
      · obtain ⟨st, -, hcallbacks, hstreams, -⟩ := step_creates hop
        rw [hstreams] at hw
        rcases Table.mem_set hw with rfl | ⟨hold, -⟩
        · exact .inl hcallbacks
        · exact hkept w hold
      · simp only [step, expectResponse] at hw
        split at hw
        · exact hkept w hw
        · rename_i st hget
          rcases Table.mem_set hw with rfl | ⟨hold, -⟩
          · refine .inr ⟨⟨streamId, resolve, reject⟩, ?_, (Table.key_of_get hget).symm, rfl⟩
            rw [registrations_concat]
            exact List.mem_append_right _ List.mem_cons_self
          · exact hkept w hold
      · obtain ⟨st, hst, hid, hcallbacks, -⟩ := (step_tableMoves hmoves).comes w hw
        rw [hid, hcallbacks]
        exact hkept st hst

/-- The callbacks of a registration are its own. -/
def Own (registered : List Registration) (x : Registration) : Prop :=
  ∀ y ∈ registered, (y.resolve = x.resolve ↔ y = x) ∧ (y.reject = x.reject ↔ y = x)

theorem Orderly.own (h : Orderly ops) {x : Registration} (hx : x ∈ registrations ops) : Own (registrations ops) x := by
  intro y hy
  constructor
  · exact ⟨List.inj_on_of_nodup_map h.resolvers hy hx, fun hxy => by rw [hxy]⟩
  · exact ⟨List.inj_on_of_nodup_map h.rejecters hy hx, fun hxy => by rw [hxy]⟩

theorem Registered.paired {registered : List Registration} {x : Registration} (h : Registered registered m) (hown : Own registered x) :
    ∀ st ∈ m.streams.entries, Paired x st.id st.callbacks := by
  intro st hst
  rcases h st hst with hnone | ⟨y, hy, -, hcallbacks⟩
  · exact .inl hnone
  · exact .inr ⟨y.resolve, y.reject, hcallbacks, (hown y hy).1.trans (hown y hy).2.symm⟩

theorem Orderly.registers_new {x : Registration} (h : Orderly (ops ++ [op])) (hop : registers op = some x) :
    ∀ y ∈ registrations ops, y.streamId ≠ x.streamId := by
  have honce := h.expected_once
  rw [registrations_concat, hop, Option.toList_some, List.map_append] at honce
  exact fun y hy => (List.nodup_append.mp honce).2.2 _ (List.mem_map_of_mem hy) _ List.mem_cons_self

theorem Registered.debt_eq_zero {registered : List Registration} {st : ManagedStream} (h : Registered registered m)
    (hst : st ∈ m.streams.entries) (hnew : ∀ y ∈ registered, y.streamId ≠ st.id) (x : Registration) :
    (calls x).debt st = 0 := by
  rcases h st hst with hnone | ⟨y, hy, hid, -⟩
  · rw [Ledger.debt, hnone]
    rfl
  · exact absurd hid (hnew y hy)

/-- A registration is owed by a stream of the table or has been called. -/
theorem run_calls (h : Orderly ops) {x : Registration} (hown : Own (registrations ops) x) :
    (calls x).balance (run ops) = if x ∈ registrations ops then 1 else 0 := by
  induction ops using List.reverseRecOn with
  | nil => rfl
  | append_singleton ops op ih =>
      have hownBefore : Own (registrations ops) x := by
        intro y hy
        apply hown y
        rw [registrations_concat]
        exact List.mem_append_left _ hy
      have hbefore := ih h.init hownBefore
      rw [run_concat]
      rcases step_kinds (run ops) op with ⟨id, hop, hregisters⟩ | ⟨streamId, resolve, reject, rfl, -⟩ | ⟨hmoves, -, hregisters⟩
      · have hnew : id ∉ (run ops).streams.keys :=
          fun hmem => h.creates_new hop (created_of_mem_keys (run_closings h.init id) hmem)
        rw [Ledger.balance_of_creates (calls_fair x) hop hnew, hbefore, registrations_concat, hregisters, Option.toList_none,
          List.append_nil]
        rfl
      · -- the call or the debt is new exactly when this is the registration
        have hregisters : registers (.expectResponse streamId resolve reject) = some ⟨streamId, resolve, reject⟩ := rfl
        have hnew := h.registers_new hregisters
        have hlast : registrations (ops ++ [.expectResponse streamId resolve reject]) =
            registrations ops ++ [⟨streamId, resolve, reject⟩] := registrations_concat _ _
        obtain ⟨hresolve, hreject⟩ := hown ⟨streamId, resolve, reject⟩ (by rw [hlast]; exact List.mem_append_right _ List.mem_cons_self)
        have hcount : (if x ∈ registrations (ops ++ [.expectResponse streamId resolve reject]) then 1 else 0) =
            (if x ∈ registrations ops then 1 else 0) + if ⟨streamId, resolve, reject⟩ = x then 1 else 0 := by
          rw [hlast]
          by_cases hx : ⟨streamId, resolve, reject⟩ = x
          · subst hx
            have hnone : ⟨streamId, resolve, reject⟩ ∉ registrations ops := fun hmem => hnew _ hmem rfl
            simp [hnone]
          · simp [hx, Ne.symm hx]
        rw [hcount, ← hbefore]
        rcases (calls x).balance_of_expectResponse (run ops) streamId resolve reject with ⟨-, hrejected⟩ | ⟨st, hst, rfl, htaken⟩
        · rw [← if_congr hreject rfl rfl]
          exact hrejected
        · rw [(run_registered ops).debt_eq_zero hst hnew x, Nat.add_zero] at htaken
          have howed : (calls x).owed st.id (some resolve, some reject) = if ⟨st.id, resolve, reject⟩ = x then 1 else 0 := by
            apply if_congr _ rfl rfl
            rw [Prod.mk.injEq, Option.some_inj, Option.some_inj]
            exact ⟨fun hboth => hresolve.mp hboth.1, fun hx => ⟨hresolve.mpr hx, hreject.mpr hx⟩⟩
          rw [← howed]
          exact htaken
      · rw [registrations_concat, hregisters, Option.toList_none, List.append_nil, ← hbefore]
        exact Ledger.balance_of_tableMoves (step_tableMoves hmoves) (calls_fair x) ((run_registered ops).paired hownBefore)

/-! ### Once -/

theorem Orderly.before {before after : List ManagerOp} (h : Orderly (before ++ after)) : Orderly before := by
  induction after using List.reverseRecOn with
  | nil => rwa [List.append_nil] at h
  | append_singleton after op ih =>
      rw [← List.append_assoc] at h
      exact ih h.init

theorem Created.append {before : List ManagerOp} {id : StreamId} (h : Created before id) (after : List ManagerOp) :
    Created (before ++ after) id := by
  induction after using List.reverseRecOn with
  | nil => rwa [List.append_nil]
  | append_singleton after op ih =>
      rw [← List.append_assoc]
      exact (created_concat _ op id).mpr (.inl ih)

/-- A stream was in the table and is there no more. -/
def HasLeft (ops : List ManagerOp) (id : StreamId) : Prop :=
  (∃ before after, ops = before ++ after ∧ id ∈ (run before).streams.keys) ∧ id ∉ (run ops).streams.keys

theorem Created.was_in_table {id : StreamId} (h : Created ops id) :
    ∃ before after, ops = before ++ after ∧ id ∈ (run before).streams.keys := by
  induction ops using List.reverseRecOn with
  | nil => exact absurd h (not_created_nil id)
  | append_singleton ops op ih =>
      rcases (created_concat ops op id).mp h with hearlier | hop
      · obtain ⟨before, after, rfl, hmem⟩ := ih hearlier
        exact ⟨before, after ++ [op], List.append_assoc _ _ _, hmem⟩
      · obtain ⟨st, rfl, -, hstreams, -⟩ := step_creates hop
        refine ⟨ops ++ [op], [], (List.append_nil _).symm, ?_⟩
        rw [run_concat, hstreams]
        exact List.mem_map_of_mem (Table.mem_of_get (Table.get_set_self _ st))

theorem Orderly.hasLeft_iff (h : Orderly ops) (id : StreamId) :
    HasLeft ops id ↔ Created ops id ∧ id ∉ (run ops).streams.keys := by
  apply and_congr_left'
  constructor
  · rintro ⟨before, after, rfl, hmem⟩
    exact (created_of_mem_keys (run_closings h.before id) hmem).append after
  · exact Created.was_in_table

theorem closings_total_eq_zero_of_mem (h : Orderly ops) {id : StreamId} (hmem : id ∈ (run ops).streams.keys) :
    (closings id).total (run ops).effects = 0 := by
  obtain ⟨st, hst, rfl⟩ := List.mem_map.mp hmem
  have hbalance := run_closings h st.id
  rw [if_pos (created_of_mem_keys hbalance hmem), Ledger.balance] at hbalance
  have hdebt := List.single_le_sum (fun _ _ => Nat.zero_le _) _ (List.mem_map_of_mem (f := (closings st.id).debt) hst)
  have hone : (closings st.id).debt st = 1 := if_pos rfl
  omega

theorem debts_eq_zero_of_not_mem {l : Ledger} {id : StreamId} (howed : ∀ st ∈ m.streams.entries, st.id ≠ id → l.debt st = 0)
    (h : id ∉ m.streams.keys) : l.balance m = l.total m.effects := by
  have hsum : (m.streams.entries.map l.debt).sum = 0 := by
    apply List.sum_eq_zero
    intro debt hdebt
    obtain ⟨st, hst, rfl⟩ := List.mem_map.mp hdebt
    exact howed st hst fun hid => h (hid ▸ List.mem_map_of_mem hst)
  rw [Ledger.balance, hsum, Nat.zero_add]

/-- In an orderly run a stream is announced to have closed once when it leaves the table and never before;
and of the two callbacks registered for a stream at most one is called, at most once, and exactly one where
the stream is not in the table any more. -/
theorem each_stream_ends_once (h : Orderly ops) :
    (∀ id, (closings id).total (run ops).effects ≤ 1 ∧ ((closings id).total (run ops).effects = 1 ↔ HasLeft ops id)) ∧
      ∀ x ∈ registrations ops, (calls x).total (run ops).effects ≤ 1 ∧
        (x.streamId ∉ (run ops).streams.keys → (calls x).total (run ops).effects = 1) := by
  constructor
  · intro id
    have hbalance := run_closings h id
    rw [h.hasLeft_iff]
    by_cases hmem : id ∈ (run ops).streams.keys
    · rw [closings_total_eq_zero_of_mem h hmem]
      exact ⟨Nat.zero_le _, fun hone => absurd hone Nat.zero_ne_one, fun hleft => absurd hmem hleft.2⟩
    · rw [debts_eq_zero_of_not_mem (l := closings id) (fun _ _ hne => if_neg hne) hmem] at hbalance
      rw [hbalance]
      split
      · rename_i hcreated
        exact ⟨Nat.le_refl _, fun _ => ⟨hcreated, hmem⟩, fun _ => rfl⟩
      · rename_i hnew
        exact ⟨Nat.zero_le _, fun hone => absurd hone Nat.zero_ne_one, fun hleft => absurd hleft.1 hnew⟩
  · intro x hx
    have hbalance := run_calls h (h.own hx)
    rw [if_pos hx] at hbalance
    refine ⟨hbalance ▸ Nat.le_add_left _ _, fun hleft => ?_⟩
    rw [← hbalance]
    refine (debts_eq_zero_of_not_mem (fun st hst hne => ?_) hleft).symm
    -- what a stream owes was registered for that stream
    rcases run_registered ops st hst with hnone | ⟨y, hy, hid, hcallbacks⟩
    · rw [Ledger.debt, hnone]
      rfl
    · rw [Ledger.debt, hcallbacks]
      apply if_neg
      intro hsame
      have hyx : y = x := (h.own hx y hy).1.mp (Option.some.inj (Prod.mk.inj hsame).1)
      exact hne (hid.symm.trans (congrArg Registration.streamId hyx))

/-- One stream is reset by the peer, and one that the peer promised is aborted. -/
def resetAndAborted : List ManagerOp :=
  [.openStream, .expectResponse 1 0 0, .dispatch (.pushPromise ⟨0x4, 1, true, false, 2, []⟩), .expectResponse 2 1 1,
    .dispatch (.rstStream ⟨0, 1, 0x8⟩), .abortAll (.http2 .connectionClosed)]

theorem each_stream_ends_once_two :
    Orderly resetAndAborted ∧ (closings 1).total (run resetAndAborted).effects ≤ 1 ∧
      (calls ⟨2, 1, 1⟩).total (run resetAndAborted).effects = 1 := by
  have horderly : Orderly resetAndAborted := ⟨by decide, by decide, by decide, by decide, by decide⟩
  obtain ⟨hclosed, hcalled⟩ := each_stream_ends_once horderly
  exact ⟨horderly, (hclosed 1).1, (hcalled ⟨2, 1, 1⟩ (by decide)).2 (by decide +kernel)⟩

end Manager

end BrowsercoreHttp2
