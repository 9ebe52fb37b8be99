import BrowsercoreHttp2.Library.Table
import Mathlib.Logic.Function.Basic

/-!
# The internal event emitter

`InternalEventEmitter` keeps a `Set` of records for each event. The wrapper of a `once` registration holds
on to the set it was added to and deletes its record from that one, also after `removeAllListeners` took it
out of the map. So sets have names here, and the map holds the names.

What a user sees of the emitter has no sets: the records of each event, in the order of their registration.
Each method acts on these alone.
-/

namespace BrowsercoreHttp2

/-- A listener, by the identity of the function. -/
abbrev Listener := Nat

/-- A `Set` object, by its identity. -/
abbrev SetRef := Nat

/-- A listener stored against an event name. Each registration makes a record of its own, told apart from the
others by `id`. -/
structure StoredListener where
  id : Nat
  /-- The set that the wrapper of a `once` registration deletes its record from. -/
  once : Option SetRef
  original : Listener
  deriving DecidableEq

structure InternalEventEmitter where
  events : Table (Prod.fst : String × SetRef → String) := .empty
  sets : SetRef → List StoredListener := fun _ => []
  nextSet : SetRef := 0
  nextId : Nat := 0

namespace InternalEventEmitter

def updateSet (e : InternalEventEmitter) (ref : SetRef) (f : List StoredListener → List StoredListener) : InternalEventEmitter :=
  { e with sets := Function.update e.sets ref (f (e.sets ref)) }

def getOrCreate (e : InternalEventEmitter) (event : String) : InternalEventEmitter × SetRef :=
  match e.events.get event with
  | some (_, ref) => (e, ref)
  | none => ({ e with events := e.events.set (event, e.nextSet), nextSet := e.nextSet + 1 }, e.nextSet)

/-- Add a new record, made for the set of the event. -/
def register (e : InternalEventEmitter) (event : String) (record : SetRef → Nat → StoredListener) : InternalEventEmitter :=
  let (e, set) := e.getOrCreate event
  { e.updateSet set (· ++ [record set e.nextId]) with nextId := e.nextId + 1 }

def on (e : InternalEventEmitter) (event : String) (listener : Listener) : InternalEventEmitter :=
  e.register event fun _ id => { id, once := none, original := listener }

def once (e : InternalEventEmitter) (event : String) (listener : Listener) : InternalEventEmitter :=
  e.register event fun set id => { id, once := some set, original := listener }

def off (e : InternalEventEmitter) (event : String) (listener : Listener) : InternalEventEmitter :=
  match e.events.get event with
  | none => e
  | some (_, set) => e.updateSet set (·.eraseP fun entry => entry.original = listener)

def removeAllListeners (e : InternalEventEmitter) : Option String → InternalEventEmitter
  | none => { e with events := .empty }
  | some event => { e with events := e.events.delete event }

/-- The entries of the set of an event, which `emit` takes its snapshot of. -/
def listeners (e : InternalEventEmitter) (event : String) : List StoredListener :=
  match e.events.get event with
  | none => []
  | some (_, set) => e.sets set

/-- What `call` does before it runs the listener. -/
def beforeListener (e : InternalEventEmitter) (record : StoredListener) : InternalEventEmitter :=
  match record.once with
  | none => e
  | some set => e.updateSet set (·.filter (· ≠ record))

/-! ### Sets -/

/-- Entries in the order of their registration, each of a wrapper that deletes it from this set. -/
structure SetInOrder (nextId : Nat) (set : SetRef) (entries : List StoredListener) : Prop where
  ascending : entries.Pairwise fun entry later => entry.id < later.id
  fresh : ∀ entry ∈ entries, entry.id < nextId
  captured : ∀ entry ∈ entries, ∀ own, entry.once = some own → own = set

theorem SetInOrder.sublist {nextId : Nat} {set : SetRef} {entries rest : List StoredListener}
    (h : SetInOrder nextId set entries) (hrest : rest.Sublist entries) : SetInOrder nextId set rest where
  ascending := h.ascending.sublist hrest
  fresh := fun entry hentry => h.fresh entry (hrest.subset hentry)
  captured := fun entry hentry => h.captured entry (hrest.subset hentry)

theorem SetInOrder.concat {nextId : Nat} {set : SetRef} {entries : List StoredListener} (h : SetInOrder nextId set entries)
    {record : StoredListener} (hid : record.id = nextId) (hcaptured : ∀ own, record.once = some own → own = set) :
    SetInOrder (nextId + 1) set (entries ++ [record]) := by
  refine ⟨List.pairwise_append.mpr ⟨h.ascending, List.pairwise_singleton _ _, ?_⟩, ?_, ?_⟩
  · intro entry hentry later hlater
    rw [List.mem_singleton.mp hlater, hid]
    exact h.fresh entry hentry
  · intro entry hentry
    obtain hold | hnew := List.mem_append.mp hentry
    · exact Nat.lt_succ_of_lt (h.fresh entry hold)
    · rw [List.mem_singleton.mp hnew, hid]
      exact Nat.lt_succ_self nextId
  · intro entry hentry
    obtain hold | hnew := List.mem_append.mp hentry
    · exact h.captured entry hold
    · rw [List.mem_singleton.mp hnew]
      exact hcaptured

/-- Events have sets of their own, in which entries stand in the order of their registration. -/
structure WellFormed (e : InternalEventEmitter) : Prop where
  refs_lt : ∀ entry ∈ e.events.entries, entry.2 < e.nextSet
  refs_nodup : (e.events.entries.map Prod.snd).Nodup
  sets : ∀ set, SetInOrder e.nextId set (e.sets set)
  uncreated : ∀ set, e.nextSet ≤ set → e.sets set = []

theorem wellFormed_new : ({} : InternalEventEmitter).WellFormed where
  refs_lt := fun _ hentry => absurd hentry List.not_mem_nil
  refs_nodup := List.nodup_nil
  sets := fun _ => ⟨.nil, fun _ hentry => absurd hentry List.not_mem_nil, fun _ hentry => absurd hentry List.not_mem_nil⟩
  uncreated := fun _ _ => rfl

variable {e : InternalEventEmitter} {event : String} {set : SetRef}

@[simp] theorem sets_updateSet_self (f : List StoredListener → List StoredListener) :
    (e.updateSet set f).sets set = f (e.sets set) := Function.update_self ..

theorem sets_updateSet_of_ne {other : SetRef} (hother : other ≠ set) (f : List StoredListener → List StoredListener) :
    (e.updateSet set f).sets other = e.sets other := Function.update_of_ne hother ..

theorem listeners_of_get (hget : e.events.get event = some (event, set)) : e.listeners event = e.sets set := by
  rw [listeners, hget]

theorem listeners_of_get_none (hget : e.events.get event = none) : e.listeners event = [] := by
  rw [listeners, hget]

theorem get_cases (e : InternalEventEmitter) (event : String) :
    e.events.get event = none ∨ ∃ set, e.events.get event = some (event, set) := by
  cases hget : e.events.get event with
  | none => exact .inl rfl
  | some entry =>
      have hevent : entry.1 = event := Table.key_of_get hget
      exact .inr ⟨entry.2, by rw [← hevent]⟩

theorem WellFormed.event_of_set (h : e.WellFormed) {other : String} (hget : e.events.get event = some (event, set))
    (hother : e.events.get other = some (other, set)) : other = event :=
  congrArg Prod.fst (List.inj_on_of_nodup_map h.refs_nodup (Table.mem_of_get hother) (Table.mem_of_get hget) rfl)

theorem WellFormed.listeners_inOrder (h : e.WellFormed) (event : String) :
    ∃ set, SetInOrder e.nextId set (e.listeners event) := by
  obtain hget | ⟨set, hget⟩ := e.get_cases event
  · rw [listeners_of_get_none hget]
    exact ⟨0, .nil, fun _ hentry => absurd hentry List.not_mem_nil, fun _ hentry => absurd hentry List.not_mem_nil⟩
  · rw [listeners_of_get hget]
    exact ⟨set, h.sets set⟩

/-- A change to the set of an event is seen under that event only. -/
theorem WellFormed.listeners_updateSet (h : e.WellFormed) (hget : e.events.get event = some (event, set))
    (f : List StoredListener → List StoredListener) (other : String) :
    (e.updateSet set f).listeners other = if other = event then f (e.listeners event) else e.listeners other := by
  obtain hother | ⟨own, hother⟩ := e.get_cases other
  · have hne : other ≠ event := by
      intro heq
      rw [heq, hget] at hother
      exact absurd hother (Option.some_ne_none _)
    rw [if_neg hne, listeners_of_get_none hother]
    exact listeners_of_get_none hother
  · have hupdated : (e.updateSet set f).listeners other = (e.updateSet set f).sets own := listeners_of_get hother
    rw [hupdated]
    by_cases hown : own = set
    · rw [hown] at hother
      have heq := h.event_of_set hget hother
      rw [hown, sets_updateSet_self, if_pos heq, listeners_of_get hget]
    · have hne : other ≠ event := by
        intro heq
        rw [heq, hget] at hother
        exact hown (congrArg Prod.snd (Option.some.inj hother)).symm
      rw [sets_updateSet_of_ne hown, if_neg hne, listeners_of_get hother]

/-- Removing entries keeps a set in order. -/
theorem WellFormed.updateSet_sublist (h : e.WellFormed) {f : List StoredListener → List StoredListener}
    (hf : (f (e.sets set)).Sublist (e.sets set)) : (e.updateSet set f).WellFormed where
  refs_lt := h.refs_lt
  refs_nodup := h.refs_nodup
  sets := by
    intro other
    by_cases hother : other = set
    · rw [hother, sets_updateSet_self]
      exact (h.sets set).sublist hf
    · rw [sets_updateSet_of_ne hother]
      exact h.sets other
  uncreated := by
    intro other hother
    by_cases heq : other = set
    · rw [heq] at hother
      rw [h.uncreated set hother] at hf
      rw [heq, sets_updateSet_self, h.uncreated set hother]
      exact List.sublist_nil.mp hf
    · rw [sets_updateSet_of_ne heq]
      exact h.uncreated other hother

/-! ### Registrations -/

/-- An event gets an empty set the first time it is listened to. -/
theorem WellFormed.getOrCreate (h : e.WellFormed) (event : String) :
    (e.getOrCreate event).1.WellFormed ∧
      (e.getOrCreate event).1.events.get event = some (event, (e.getOrCreate event).2) ∧
      (e.getOrCreate event).1.nextId = e.nextId ∧
      ∀ other, (e.getOrCreate event).1.listeners other = e.listeners other := by
  obtain hget | ⟨set, hget⟩ := e.get_cases event
  · rw [InternalEventEmitter.getOrCreate, hget]
    have habsent : event ∉ e.events.keys := by
      intro hkey
      obtain ⟨entry, hentry⟩ := Table.mem_keys_iff.mp hkey
      rw [hget] at hentry
      exact absurd hentry.symm (Option.some_ne_none entry)
    have hentries : (e.events.set (event, e.nextSet)).entries = e.events.entries ++ [(event, e.nextSet)] :=
      Table.setEntries_of_not_mem habsent
    refine ⟨⟨?_, ?_, h.sets, fun set hset => h.uncreated set (Nat.le_of_succ_le hset)⟩, Table.get_set_self _ _, rfl, fun other => ?_⟩
    · intro entry hentry
      rw [hentries] at hentry
      obtain hold | hnew := List.mem_append.mp hentry
      · exact Nat.lt_succ_of_lt (h.refs_lt entry hold)
      · rw [List.mem_singleton.mp hnew]
        exact Nat.lt_succ_self e.nextSet
    · rw [hentries, List.map_append]
      refine List.nodup_append.mpr ⟨h.refs_nodup, List.nodup_singleton _, fun set hset own hown => ?_⟩
      obtain ⟨entry, hentry, hset⟩ := List.mem_map.mp hset
      have hlt := h.refs_lt entry hentry
      rw [List.mem_singleton.mp hown, ← hset]
      exact Nat.ne_of_lt hlt
    · by_cases hother : other = event
      · -- The new set is empty, and before there was none.
        rw [hother, listeners_of_get_none hget]
        exact (listeners_of_get (Table.get_set_self e.events _)).trans (h.uncreated e.nextSet (Nat.le_refl _))
      · have hsame : (e.events.set (event, e.nextSet)).get other = e.events.get other :=
          Table.get_set_ne _ (Ne.symm hother)
        rw [listeners, listeners, hsame]
  · rw [InternalEventEmitter.getOrCreate, hget]
    exact ⟨h, hget, rfl, fun _ => rfl⟩

/-- The record that a registration makes. -/
def newRecord (e : InternalEventEmitter) (event : String) (record : SetRef → Nat → StoredListener) : StoredListener :=
  record (e.getOrCreate event).2 e.nextId

variable {record : SetRef → Nat → StoredListener}

theorem WellFormed.register (h : e.WellFormed) (event : String) (hid : ∀ set id, (record set id).id = id)
    (hcaptured : ∀ set id own, (record set id).once = some own → own = set) :
    (e.register event record).WellFormed ∧ (e.register event record).nextId = e.nextId + 1 ∧
      ∀ other, (e.register event record).listeners other =
        if other = event then e.listeners event ++ [e.newRecord event record] else e.listeners other := by
  obtain ⟨hwf, hget, hnext, hlisteners⟩ := h.getOrCreate event
  set created := (e.getOrCreate event).1 with hcreated
  set own := (e.getOrCreate event).2 with hown
  have hregister : e.register event record =
      { created.updateSet own (· ++ [record own created.nextId]) with nextId := created.nextId + 1 } := rfl
  have hsets : (e.register event record).sets = (created.updateSet own (· ++ [record own created.nextId])).sets := rfl
  have hrecord : e.newRecord event record = record own created.nextId := by rw [newRecord, hnext]
  refine ⟨⟨hwf.refs_lt, hwf.refs_nodup, fun other => ?_, fun other hother => ?_⟩, ?_, fun other => ?_⟩
  · rw [hsets]
    by_cases hset : other = own
    · rw [hset, sets_updateSet_self]
      exact (hwf.sets own).concat (hid own created.nextId) (hcaptured own created.nextId)
    · have hkept := hwf.sets other
      rw [sets_updateSet_of_ne hset]
      exact ⟨hkept.ascending, fun entry hentry => Nat.lt_succ_of_lt (hkept.fresh entry hentry), hkept.captured⟩
  · have hlt : own < created.nextSet := hwf.refs_lt _ (Table.mem_of_get hget)
    have hne : other ≠ own := fun heq => absurd hother (Nat.not_le_of_lt (heq ▸ hlt))
    rw [hsets, sets_updateSet_of_ne hne]
    exact hwf.uncreated other hother
  · rw [hregister, hnext]
  · have hupdated := hwf.listeners_updateSet hget (· ++ [record own created.nextId]) other
    rw [hlisteners, hlisteners] at hupdated
    rw [hrecord]
    exact hupdated

theorem WellFormed.off (h : e.WellFormed) (event : String) (listener : Listener) :
    (e.off event listener).WellFormed ∧ (e.off event listener).nextId = e.nextId ∧
      ∀ other, (e.off event listener).listeners other =
        if other = event then (e.listeners event).eraseP (fun entry => entry.original = listener) else e.listeners other := by
  obtain hget | ⟨set, hget⟩ := e.get_cases event
  · have hoff : e.off event listener = e := by rw [InternalEventEmitter.off, hget]
    rw [hoff]
    refine ⟨h, rfl, fun other => ?_⟩
    split
    · rename_i heq
      rw [heq, listeners_of_get_none hget, List.eraseP_nil]
    · rfl
  · have hoff : e.off event listener = e.updateSet set (·.eraseP fun entry => entry.original = listener) := by
      rw [InternalEventEmitter.off, hget]
    rw [hoff]
    exact ⟨h.updateSet_sublist List.eraseP_sublist, rfl, h.listeners_updateSet hget _⟩

theorem WellFormed.removeAllListeners (h : e.WellFormed) (removed : Option String) :
    (e.removeAllListeners removed).WellFormed ∧ (e.removeAllListeners removed).nextId = e.nextId ∧
      ∀ other, (e.removeAllListeners removed).listeners other =
        if removed = none ∨ removed = some other then [] else e.listeners other := by
  cases removed with
  | none =>
      refine ⟨⟨fun _ hentry => absurd hentry List.not_mem_nil, List.nodup_nil, h.sets, h.uncreated⟩, rfl, fun other => ?_⟩
      rw [if_pos (.inl rfl)]
      exact listeners_of_get_none rfl
  | some event =>
      have hsublist : (e.events.delete event).entries.Sublist e.events.entries := List.filter_sublist
      refine ⟨⟨fun entry hentry => h.refs_lt entry (hsublist.subset hentry), h.refs_nodup.sublist (hsublist.map Prod.snd),
        h.sets, h.uncreated⟩, rfl, fun other => ?_⟩
      by_cases heq : event = other
      · rw [if_pos (.inr (congrArg some heq)), ← heq]
        exact listeners_of_get_none (Table.get_delete_self e.events event)
      · have hsame : (e.events.delete event).get other = e.events.get other := Table.get_delete_ne _ (Ne.symm heq)
        have hkept : ¬(some event = none ∨ some event = some other) := by
          simpa using heq
        rw [if_neg hkept, InternalEventEmitter.removeAllListeners, listeners, listeners, hsame]

/-- A wrapper takes its record out of the set it was added to, which is the only one that can have it. -/
theorem WellFormed.beforeListener (h : e.WellFormed) (record : StoredListener) :
    (e.beforeListener record).WellFormed ∧ (e.beforeListener record).nextId = e.nextId ∧
      ∀ other, (e.beforeListener record).listeners other =
        if record.once.isSome then (e.listeners other).filter (· ≠ record) else e.listeners other := by
  cases honce : record.once with
  | none =>
      have hbefore : e.beforeListener record = e := by rw [InternalEventEmitter.beforeListener, honce]
      rw [hbefore]
      exact ⟨h, rfl, fun other => (if_neg (by simp)).symm⟩
  | some set =>
      have hbefore : e.beforeListener record = e.updateSet set (·.filter (· ≠ record)) := by
        rw [InternalEventEmitter.beforeListener, honce]
      rw [hbefore]
      refine ⟨h.updateSet_sublist List.filter_sublist, rfl, fun other => ?_⟩
      rw [Option.isSome_some, if_pos rfl]
      obtain hget | ⟨own, hget⟩ := e.get_cases other
      · rw [listeners_of_get_none hget, List.filter_nil]
        exact listeners_of_get_none hget
      · have hupdated : (e.updateSet set (·.filter (· ≠ record))).listeners other =
            (e.updateSet set (·.filter (· ≠ record))).sets own := listeners_of_get hget
        rw [hupdated, listeners_of_get hget]
        by_cases hown : own = set
        · rw [hown, sets_updateSet_self]
        · have habsent : (e.sets own).filter (· ≠ record) = e.sets own := by
            refine List.filter_eq_self.mpr fun entry hentry => decide_eq_true fun heq => ?_
            exact hown ((h.sets own).captured entry hentry set (heq ▸ honce)).symm
          rw [sets_updateSet_of_ne hown, habsent]

end InternalEventEmitter

end BrowsercoreHttp2
