import Mathlib.Data.Rat.Floor
import BrowsercoreHttp2.Hpack.ReferenceTable

/-!
# The account of a dynamic table

Over any additions and resizes the recorded size is the size of the entries, these are the newest additions, and they
fit the limit unless an entry that is too large has just been put in their place.
-/

namespace BrowsercoreHttp2

/-! ### Limits -/

namespace Js.Number

/-- `size <= limit` for a size. -/
def Holds (limit : Number) (size : Nat) : Prop :=
  match limit with
  | .nan => False
  | .infinity negative => negative = false
  | .finite value => (size : Rat) ≤ value

/-- Sizes are whole, so a limit that is not negative decides what its floor decides. -/
def floor : Number → JsNat
  | .nan => .nan
  | .infinity _ => .infinity
  | .finite value => .finite ⌊value⌋₊

variable {limit : Number}

theorem Holds.cases (h : limit.Holds 0) : limit = .infinity false ∨ ∃ value : Rat, 0 ≤ value ∧ limit = .finite value := by
  cases limit with
  | nan => exact absurd h id
  | infinity negative => exact .inl (congrArg Number.infinity h)
  | finite value => exact .inr ⟨value, by simpa [Holds] using h, rfl⟩

theorem Holds.floor_le_iff (h : limit.Holds 0) (size : Nat) : limit.Holds size ↔ JsNat.le (.finite size) limit.floor = true := by
  obtain rfl | ⟨value, hvalue, rfl⟩ := h.cases
  · exact ⟨fun _ => rfl, fun _ => rfl⟩
  · rw [floor, JsNat.le, decide_eq_true_eq, Nat.le_floor_iff hvalue, Holds]

theorem Holds.floor_lt_iff (h : limit.Holds 0) (size : Nat) : limit.Holds size ↔ limit.floor.lt (.finite size) = false := by
  obtain rfl | ⟨value, hvalue, rfl⟩ := h.cases
  · exact ⟨fun _ => rfl, fun _ => rfl⟩
  · rw [floor, JsNat.lt, decide_eq_false_iff_not, Nat.not_lt, Nat.le_floor_iff hvalue, Holds]

end Js.Number

/-! ### Calls -/

inductive TableCall where
  | add (name value : String)
  | setLimit (limit : Js.Number)

namespace TableCall

def apply (t : DynamicTable) : TableCall → DynamicTable
  | .add name value => t.add name value
  | .setLimit limit => t.setLimit limit.floor

def entry : TableCall → Option DynamicEntry
  | .add name value => some ⟨name, value⟩
  | .setLimit _ => none

def limit (before : Js.Number) : TableCall → Js.Number
  | .add _ _ => before
  | .setLimit limit => limit

end TableCall

/-- A new table after some calls. -/
def tableAfter (limit : Js.Number) (calls : List TableCall) : DynamicTable := calls.foldl TableCall.apply (.create limit.floor)

/-- The entries added, oldest first. -/
def additions (calls : List TableCall) : List DynamicEntry := calls.filterMap TableCall.entry

/-- The limit that was set last. -/
def limitAfter (limit : Js.Number) (calls : List TableCall) : Js.Number := calls.foldl TableCall.limit limit

theorem tableAfter_concat (limit : Js.Number) (calls : List TableCall) (call : TableCall) :
    tableAfter limit (calls ++ [call]) = call.apply (tableAfter limit calls) := List.foldl_concat _ _ _ _

theorem additions_concat (calls : List TableCall) (call : TableCall) :
    additions (calls ++ [call]) = additions calls ++ call.entry.toList := by
  rw [additions, List.filterMap_append, additions]
  cases call with
  | add name value => rfl
  | setLimit limit => rfl

theorem limitAfter_concat (limit : Js.Number) (calls : List TableCall) (call : TableCall) :
    limitAfter limit (calls ++ [call]) = call.limit (limitAfter limit calls) := List.foldl_concat _ _ _ _

theorem tableAfter_maxSize (limit : Js.Number) (calls : List TableCall) :
    (tableAfter limit calls).maxSize = (limitAfter limit calls).floor := by
  induction calls using List.reverseRecOn with
  | nil => rfl
  | append_singleton calls call ih =>
      rw [tableAfter_concat, limitAfter_concat]
      cases call with
      | add name value => exact (DynamicTable.add_maxSize _ name value).trans ih
      | setLimit limit => exact DynamicTable.setLimit_maxSize _ limit.floor

theorem limitAfter_holds {limit : Js.Number} {calls : List TableCall} (hlimit : limit.Holds 0)
    (hcalls : ∀ limit', .setLimit limit' ∈ calls → limit'.Holds 0) : (limitAfter limit calls).Holds 0 := by
  induction calls using List.reverseRecOn with
  | nil => exact hlimit
  | append_singleton calls call ih =>
      rw [limitAfter_concat]
      cases call with
      | add name value => exact ih fun limit' hmem => hcalls limit' (List.mem_append_left _ hmem)
      | setLimit limit' => exact hcalls limit' (List.mem_append_right _ List.mem_cons_self)

/-- The entries are the newest additions. -/
theorem tableAfter_newest (limit : Js.Number) (calls : List TableCall) :
    (tableAfter limit calls).entries <+: (additions calls).reverse := by
  induction calls using List.reverseRecOn with
  | nil => exact List.nil_prefix
  | append_singleton calls call ih =>
      rw [tableAfter_concat, additions_concat]
      cases call with
      | add name value =>
          have hold : (⟨name, value⟩ :: (tableAfter limit calls).entries) <+: ⟨name, value⟩ :: (additions calls).reverse :=
            (List.prefix_cons_inj _).mpr ih
          have hnew := (DynamicTable.add_prefix (tableAfter limit calls) name value).trans hold
          rw [TableCall.entry, Option.toList_some, List.reverse_append]
          exact hnew
      | setLimit limit' =>
          have hkept := (DynamicTable.setLimit_prefix (tableAfter limit calls) limit'.floor).trans ih
          rw [TableCall.entry, Option.toList_none, List.append_nil]
          exact hkept

/-! ### The limit -/

theorem evictToFit_holds (t : DynamicTable) {limit : Js.Number} (hlimit : limit.Holds 0) :
    limit.Holds (t.evictToFit limit.floor).currentSize := by
  rcases t.evictToFit_fits limit.floor with hfits | hempty
  · exact (hlimit.floor_lt_iff _).mpr hfits
  · rw [(t.evictToFit limit.floor).accounted, hempty]
    exact hlimit

theorem add_holds {t : DynamicTable} {limit : Js.Number} (hlimit : limit.Holds 0) (hmax : t.maxSize = limit.floor)
    (name value : String) : limit.Holds (t.add name value).currentSize ∨ (t.add name value).entries = [⟨name, value⟩] := by
  by_cases hentry : limit.Holds (DynamicEntry.mk name value).size
  · left
    rw [DynamicTable.add, hmax, if_pos ((hlimit.floor_le_iff _).mp hentry)]
    exact evictToFit_holds _ hlimit
  · right
    obtain rfl | ⟨bound, hbound, rfl⟩ := hlimit.cases
    · exact absurd rfl hentry
    · rw [t.add_entries hmax, if_neg]
      rwa [Js.Number.Holds, ← Nat.le_floor_iff hbound] at hentry

/-- Any limits that are not negative, and any calls: the size is that of the entries, and none only of no entries; these
are the newest additions, newest first; and they fit the limit, unless the last call has left its own entry alone. -/
theorem table_accounting {limit : Js.Number} {calls : List TableCall} (hlimit : limit.Holds 0)
    (hcalls : ∀ limit', .setLimit limit' ∈ calls → limit'.Holds 0) :
    (tableAfter limit calls).currentSize =
        ((tableAfter limit calls).entries.map fun e => stringLength e.name + stringLength e.value + 32).sum ∧
      ((tableAfter limit calls).currentSize = 0 ↔ (tableAfter limit calls).entries = []) ∧
      (tableAfter limit calls).entries <+: (additions calls).reverse ∧
      ((limitAfter limit calls).Holds (tableAfter limit calls).currentSize ∨
        ∃ name value, calls.getLast? = some (.add name value) ∧ (tableAfter limit calls).entries = [⟨name, value⟩]) := by
  have haccounted := (tableAfter limit calls).accounted
  refine ⟨haccounted, ?_, tableAfter_newest limit calls, ?_⟩
  · rw [haccounted]
    cases (tableAfter limit calls).entries with
    | nil => exact ⟨fun _ => rfl, fun _ => rfl⟩
    | cons e entries =>
        have hpos := e.size_pos
        rw [entriesSize_cons]
        refine ⟨fun h => ?_, fun h => absurd h (List.cons_ne_nil _ _)⟩
        omega
  · obtain rfl | ⟨before, call, rfl⟩ := List.eq_nil_or_concat' calls
    · exact .inl hlimit
    · rw [tableAfter_concat, limitAfter_concat, List.getLast?_concat]
      cases call with
      | add name value =>
          have hbefore : (limitAfter limit before).Holds 0 :=
            limitAfter_holds hlimit fun limit' hmem => hcalls limit' (List.mem_append_left _ hmem)
          exact (add_holds hbefore (tableAfter_maxSize limit before) name value).imp_right fun h => ⟨name, value, rfl, h⟩
      | setLimit limit' => exact .inl (evictToFit_holds _ (hcalls limit' (List.mem_append_right _ List.mem_cons_self)))

/-- A resize below the size of an entry, which is then added alone. -/
theorem table_accounting_small :
    let calls : List TableCall := [.add "a" "b", .setLimit (.finite 10), .add "c" "d"]
    (tableAfter (.finite 4096) calls).currentSize = 34 ∧
      (tableAfter (.finite 4096) calls).entries <+: (additions calls).reverse := by
  intro calls
  have hlimits : ∀ limit, TableCall.setLimit limit ∈ calls → limit.Holds 0 := by
    intro limit hmem
    obtain rfl : limit = .finite 10 := by simpa [calls] using hmem
    norm_num [Js.Number.Holds]
  obtain ⟨hsize, -, hnewest, -⟩ := table_accounting (show (Js.Number.finite 4096).Holds 0 by norm_num [Js.Number.Holds]) hlimits
  exact ⟨hsize.trans (by decide +kernel), hnewest⟩

end BrowsercoreHttp2
