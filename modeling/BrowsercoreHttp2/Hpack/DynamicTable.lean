import Mathlib.Algebra.BigOperators.Group.List.Basic
import Mathlib.Data.List.Infix
import BrowsercoreHttp2.Hpack.StaticTable
import BrowsercoreHttp2.Javascript.Number

/-!
# The HPACK dynamic table

The entries stand newest first, and the recorded size is their total size by construction. The limit is
whatever number the last resize carried, so it is a `JsNat`. Eviction drops entries from the old end
while the size exceeds the budget; it never touches the order of the entries that stay.
-/

namespace BrowsercoreHttp2

structure DynamicEntry where
  name : String
  value : String
  deriving DecidableEq

/-- `s.length`: the UTF-16 code units of a string. -/
def stringLength (s : String) : Nat := (s.toList.map fun c => if c.toNat < 0x10000 then 1 else 2).sum

def DynamicEntry.size (e : DynamicEntry) : Nat := stringLength e.name + stringLength e.value + tableEntryOverhead

def entriesSize (entries : List DynamicEntry) : Nat := (entries.map DynamicEntry.size).sum

@[simp] theorem entriesSize_nil : entriesSize [] = 0 := rfl

@[simp] theorem entriesSize_cons (e : DynamicEntry) (entries : List DynamicEntry) :
    entriesSize (e :: entries) = e.size + entriesSize entries := rfl

theorem entriesSize_dropLast {entries : List DynamicEntry} (h : entries ≠ []) :
    entriesSize entries.dropLast = entriesSize entries - (entries.getLast h).size := by
  have hsplit := congrArg entriesSize (List.dropLast_append_getLast h)
  simp only [entriesSize, List.map_append, List.sum_append, List.map_cons, List.map_nil, List.sum_cons, List.sum_nil] at hsplit
  simp only [entriesSize]
  omega

def defaultTableSizeLimit : Nat := 4096

structure DynamicTable where
  entries : List DynamicEntry
  currentSize : Nat
  maxSize : JsNat
  accounted : currentSize = entriesSize entries

namespace DynamicTable

@[ext] theorem ext {t u : DynamicTable} (hentries : t.entries = u.entries) (hmax : t.maxSize = u.maxSize) : t = u := by
  obtain ⟨entries, size, max, hsize⟩ := t
  obtain ⟨entries', size', max', hsize'⟩ := u
  simp only at hentries hmax
  subst hentries hmax hsize hsize'
  rfl

instance : DecidableEq DynamicTable := fun t u =>
  decidable_of_iff (t.entries = u.entries ∧ t.maxSize = u.maxSize)
    ⟨fun h => ext h.1 h.2, fun h => h ▸ ⟨rfl, rfl⟩⟩

def create (limit : JsNat) : DynamicTable := ⟨[], 0, limit, rfl⟩

/-- A new table with the default limit. -/
def initial : DynamicTable := create (.finite defaultTableSizeLimit)

@[simp] theorem create_entries (limit : JsNat) : (create limit).entries = [] := rfl

@[simp] theorem create_maxSize (limit : JsNat) : (create limit).maxSize = limit := rfl

@[simp] theorem initial_entries : initial.entries = [] := rfl

def length (t : DynamicTable) : Nat := t.entries.length

/-- Look up an entry, index 1 being the most recent. -/
def get (t : DynamicTable) (index : Nat) : Option DynamicEntry := t.entries[index - 1]?

/-- Evict the oldest entries until the size fits the budget. -/
def evictToFit (t : DynamicTable) (budget : JsNat) : DynamicTable :=
  if h : budget.lt (.finite t.currentSize) = true ∧ t.entries ≠ [] then
    evictToFit
      { entries := t.entries.dropLast
        currentSize := t.currentSize - (t.entries.getLast h.2).size
        maxSize := t.maxSize
        accounted := by simp only [entriesSize_dropLast h.2, t.accounted] } budget
  else t
termination_by t.entries.length
decreasing_by
  have := List.length_pos_of_ne_nil h.2
  simp only [List.length_dropLast]
  omega

def add (t : DynamicTable) (name value : String) : DynamicTable :=
  let entry : DynamicEntry := ⟨name, value⟩
  let inserted : DynamicTable :=
    { entries := entry :: t.entries
      currentSize := t.currentSize + entry.size
      maxSize := t.maxSize
      accounted := by rw [entriesSize_cons, t.accounted, Nat.add_comm] }
  inserted.evictToFit (if JsNat.le (.finite entry.size) t.maxSize then t.maxSize else .finite entry.size)

def setLimit (t : DynamicTable) (newLimit : JsNat) : DynamicTable :=
  evictToFit { t with maxSize := newLimit } newLimit

@[simp] theorem evictToFit_maxSize (t : DynamicTable) (budget : JsNat) : (t.evictToFit budget).maxSize = t.maxSize := by
  fun_induction evictToFit t budget with
  | case1 t h ih => rw [ih]
  | case2 => rfl

@[simp] theorem add_maxSize (t : DynamicTable) (name value : String) : (t.add name value).maxSize = t.maxSize := by
  simp [add]

@[simp] theorem setLimit_maxSize (t : DynamicTable) (limit : JsNat) : (t.setLimit limit).maxSize = limit := by
  simp [setLimit]

theorem evictToFit_prefix (t : DynamicTable) (budget : JsNat) : (t.evictToFit budget).entries <+: t.entries := by
  fun_induction evictToFit t budget with
  | case1 t h ih => exact ih.trans (List.dropLast_prefix t.entries)
  | case2 => exact List.prefix_rfl

theorem add_prefix (t : DynamicTable) (name value : String) : (t.add name value).entries <+: ⟨name, value⟩ :: t.entries :=
  evictToFit_prefix _ _

theorem setLimit_prefix (t : DynamicTable) (limit : JsNat) : (t.setLimit limit).entries <+: t.entries :=
  evictToFit_prefix _ _

theorem evictToFit_fits (t : DynamicTable) (budget : JsNat) :
    budget.lt (.finite (t.evictToFit budget).currentSize) = false ∨ (t.evictToFit budget).entries = [] := by
  fun_induction evictToFit t budget with
  | case1 t h ih => exact ih
  | case2 t h =>
      by_cases hempty : t.entries = []
      · exact .inr hempty
      · exact .inl (Bool.eq_false_iff.mpr fun hlt => h ⟨hlt, hempty⟩)

end DynamicTable

/-- A resolved index and the table it came from. -/
inductive ResolvedHeader where
  | static (name value : String)
  | dynamic (name value : String)
  deriving DecidableEq

def ResolvedHeader.name : ResolvedHeader → String
  | .static name _ | .dynamic name _ => name

def ResolvedHeader.value : ResolvedHeader → String
  | .static _ value | .dynamic _ value => value

/-- Look an index up across the static and the dynamic table. -/
def resolveIndex (index : JsNat) (dynamic : DynamicTable) : Option ResolvedHeader :=
  match index with
  | .finite index =>
      if index ≤ 0 then none
      else if index ≤ staticTableLength then
        (staticTable[index - 1]?).map fun entry => .static entry.name entry.value
      else
        let dynamicIndex := index - staticTableLength - 1
        (dynamic.get (dynamicIndex + 1)).map fun entry => .dynamic entry.name entry.value
  -- Indexing an array with `NaN` or `Infinity` gives `undefined`.
  | _ => none

end BrowsercoreHttp2
