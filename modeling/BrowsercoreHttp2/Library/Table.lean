import Mathlib.Data.List.Nodup

/-!
# Insertion-ordered tables

A table holds values under distinct keys and remembers the order in which the keys arrived. Setting a
key that is present replaces the value where it stands, setting a new key appends, and deleting leaves
the order of the others alone. The keys are read off the values by a projection, so a value can never
stand under a key that is not its own, and the distinctness of the keys is a field of the structure.
-/

namespace BrowsercoreHttp2

structure Table {κ ν : Type} (key : ν → κ) where
  entries : List ν
  nodup : (entries.map key).Nodup

namespace Table

variable {κ ν : Type} {key : ν → κ}

@[ext] theorem ext {t u : Table key} (h : t.entries = u.entries) : t = u := by
  cases t; cases u; simp_all

instance [DecidableEq ν] : DecidableEq (Table key) := fun t u =>
  decidable_of_iff (t.entries = u.entries) ⟨ext, congrArg entries⟩

def empty : Table key := ⟨[], by simp⟩

/-- The keys in insertion order. -/
def keys (t : Table key) : List κ := t.entries.map key

theorem key_injOn (t : Table key) {v w : ν} (hv : v ∈ t.entries) (hw : w ∈ t.entries) (h : key v = key w) : v = w :=
  List.inj_on_of_nodup_map t.nodup hv hw h

theorem entries_nodup (t : Table key) : t.entries.Nodup := t.nodup.of_map key

/-- Rewrite every value by a function that keeps its key. -/
def update (t : Table key) (f : ν → ν) (hf : ∀ v, key (f v) = key v) : Table key where
  entries := t.entries.map f
  nodup := by simpa only [List.map_map, Function.comp_def, hf] using t.nodup

theorem keys_update (t : Table key) (f : ν → ν) (hf : ∀ v, key (f v) = key v) : (t.update f hf).keys = t.keys := by
  simp [keys, update, Function.comp_def, hf]

variable [DecidableEq κ]

def get (t : Table key) (k : κ) : Option ν := t.entries.find? fun v => key v = k

def contains (t : Table key) (k : κ) : Bool := (t.get k).isSome

def delete (t : Table key) (k : κ) : Table key where
  entries := t.entries.filter fun v => key v ≠ k
  nodup := t.nodup.sublist (List.filter_sublist.map key)

def setEntries (key : ν → κ) (v : ν) : List ν → List ν
  | [] => [v]
  | w :: rest => if key w = key v then v :: rest else w :: setEntries key v rest

theorem map_key_setEntries (v : ν) (l : List ν) :
    (setEntries key v l).map key = if key v ∈ l.map key then l.map key else l.map key ++ [key v] := by
  induction l with
  | nil => simp [setEntries]
  | cons w rest ih =>
      by_cases hw : key w = key v
      · simp [setEntries, hw]
      · have hne : key v ≠ key w := Ne.symm hw
        simp only [setEntries, hw, if_false, List.map_cons, ih, List.mem_cons, hne, false_or]
        split <;> simp

def set (t : Table key) (v : ν) : Table key where
  entries := setEntries key v t.entries
  nodup := by
    rw [map_key_setEntries]
    split
    · exact t.nodup
    · rename_i hfresh
      exact List.nodup_append.mpr ⟨t.nodup, by simp, by
        rintro a ha b hb rfl
        exact hfresh (List.mem_singleton.mp hb ▸ ha)⟩

theorem get_eq_some_iff {t : Table key} {k : κ} {v : ν} : t.get k = some v ↔ v ∈ t.entries ∧ key v = k := by
  constructor
  · intro h
    exact ⟨List.mem_of_find?_eq_some h, by simpa using List.find?_some h⟩
  · rintro ⟨hmem, hkey⟩
    cases hfind : t.get k with
    | none => simpa [hkey] using List.find?_eq_none.mp hfind v hmem
    | some w =>
        have hw : key w = k := by simpa using List.find?_some hfind
        rw [t.key_injOn (List.mem_of_find?_eq_some hfind) hmem (hw.trans hkey.symm)]

theorem get_eq_none_iff {t : Table key} {k : κ} : t.get k = none ↔ ∀ v ∈ t.entries, key v ≠ k := by
  simp [get, List.find?_eq_none]

theorem key_of_get {t : Table key} {k : κ} {v : ν} (h : t.get k = some v) : key v = k :=
  (get_eq_some_iff.mp h).2

theorem mem_of_get {t : Table key} {k : κ} {v : ν} (h : t.get k = some v) : v ∈ t.entries :=
  (get_eq_some_iff.mp h).1

theorem get_of_mem {t : Table key} {v : ν} (h : v ∈ t.entries) : t.get (key v) = some v :=
  get_eq_some_iff.mpr ⟨h, rfl⟩

theorem mem_keys_iff {t : Table key} {k : κ} : k ∈ t.keys ↔ ∃ v, t.get k = some v := by
  simp only [keys, List.mem_map, get_eq_some_iff]

@[simp] theorem get_empty (k : κ) : (empty : Table key).get k = none := rfl

theorem find?_setEntries (v : ν) (l : List ν) (k : κ) :
    (setEntries key v l).find? (fun w => key w = k) = if key v = k then some v else l.find? fun w => key w = k := by
  induction l with
  | nil => by_cases hk : key v = k <;> simp [setEntries, hk]
  | cons w rest ih =>
      by_cases hw : key w = key v
      · by_cases hk : key v = k <;> simp [setEntries, hw, hk]
      · by_cases hk : key v = k
        · have hwk : key w ≠ k := fun h => hw (h.trans hk.symm)
          simp [setEntries, hwk, ih, hk]
        · simp [setEntries, hw, List.find?_cons, ih, hk]

theorem get_set (t : Table key) (v : ν) (k : κ) : (t.set v).get k = if key v = k then some v else t.get k :=
  find?_setEntries v t.entries k

@[simp] theorem get_set_self (t : Table key) (v : ν) : (t.set v).get (key v) = some v := by
  simp [get_set]

theorem get_set_ne (t : Table key) {v : ν} {k : κ} (h : key v ≠ k) : (t.set v).get k = t.get k := by
  simp [get_set, h]

theorem mem_set {t : Table key} {v w : ν} (h : w ∈ (t.set v).entries) : w = v ∨ w ∈ t.entries ∧ key w ≠ key v := by
  have hget := get_of_mem h
  rw [get_set] at hget
  split at hget
  · exact .inl (Option.some.inj hget).symm
  · rename_i hne
    exact .inr ⟨mem_of_get hget, Ne.symm hne⟩

theorem keys_set (t : Table key) (v : ν) : (t.set v).keys = if key v ∈ t.keys then t.keys else t.keys ++ [key v] :=
  map_key_setEntries v t.entries

theorem keys_set_of_mem {t : Table key} {v : ν} (h : key v ∈ t.keys) : (t.set v).keys = t.keys := by
  rw [keys_set, if_pos h]

theorem set_set (t : Table key) {v w : ν} (h : key v = key w) : (t.set v).set w = t.set w := by
  apply ext
  simp only [set]
  induction t.entries with
  | nil => simp [setEntries, h]
  | cons u rest ih =>
      by_cases hu : key u = key v
      · simp [setEntries, hu, h]
      · have huw : key u ≠ key w := h ▸ hu
        simp only [setEntries, hu, huw, if_false, ih]

theorem setEntries_eq_self {v : ν} {l : List ν} (hnodup : (l.map key).Nodup) (hmem : v ∈ l) : setEntries key v l = l := by
  induction l with
  | nil => exact absurd hmem List.not_mem_nil
  | cons u rest ih =>
      rw [List.map_cons, List.nodup_cons] at hnodup
      rcases List.mem_cons.mp hmem with rfl | hrest
      · simp [setEntries]
      · have hu : key u ≠ key v := fun hkey => hnodup.1 (hkey ▸ List.mem_map_of_mem hrest)
        simp only [setEntries, hu, if_false, ih hnodup.2 hrest]

theorem setEntries_of_not_mem {v : ν} {l : List ν} (h : key v ∉ l.map key) : setEntries key v l = l ++ [v] := by
  induction l with
  | nil => rfl
  | cons w rest ih =>
      rw [List.map_cons, List.mem_cons, not_or] at h
      rw [setEntries, if_neg (Ne.symm h.1), ih h.2, List.cons_append]

theorem length_set_le (t : Table key) (v : ν) : (t.set v).entries.length ≤ t.entries.length + 1 := by
  have hkeys := congrArg List.length (keys_set t v)
  split at hkeys
  · simp only [keys, List.length_map] at hkeys
    omega
  · simp only [keys, List.length_map, List.length_append, List.length_singleton] at hkeys
    omega

theorem length_set_of_not_mem {t : Table key} {v : ν} (h : key v ∉ t.keys) : (t.set v).entries.length = t.entries.length + 1 := by
  have hkeys := congrArg List.length (keys_set t v)
  rw [if_neg h] at hkeys
  simpa only [keys, List.length_map, List.length_append, List.length_singleton] using hkeys

theorem set_eq_self (t : Table key) {v : ν} (h : t.get (key v) = some v) : t.set v = t :=
  ext (setEntries_eq_self t.nodup (mem_of_get h))

theorem get_delete (t : Table key) (j k : κ) : (t.delete j).get k = if k = j then none else t.get k := by
  simp only [get, delete, List.find?_filter]
  split
  · rename_i hkj
    subst hkj
    simp
  · rename_i hkj
    congr 1
    funext v
    by_cases hv : key v = k <;> simp [hv, hkj]

@[simp] theorem get_delete_self (t : Table key) (k : κ) : (t.delete k).get k = none := by
  simp [get_delete]

theorem get_delete_ne (t : Table key) {j k : κ} (h : k ≠ j) : (t.delete j).get k = t.get k := by
  simp [get_delete, h]

theorem mem_delete {t : Table key} {k : κ} {v : ν} : v ∈ (t.delete k).entries ↔ v ∈ t.entries ∧ key v ≠ k := by
  simp [delete]

theorem mem_set_iff {t : Table key} {v w : ν} : w ∈ (t.set v).entries ↔ w = v ∨ w ∈ (t.delete (key v)).entries := by
  rw [mem_delete]
  constructor
  · exact mem_set
  · rintro (rfl | ⟨hw, hne⟩)
    · exact mem_of_get (get_set_self t w)
    · exact mem_of_get ((get_set_ne t (Ne.symm hne)).trans (get_of_mem hw))

theorem cons_delete_nodup (t : Table key) (v : ν) : (v :: (t.delete (key v)).entries).Nodup :=
  List.nodup_cons.mpr ⟨fun h => (mem_delete.mp h).2 rfl, (t.delete (key v)).entries_nodup⟩

theorem set_perm (t : Table key) (v : ν) : (t.set v).entries.Perm (v :: (t.delete (key v)).entries) := by
  apply (List.perm_ext_iff_of_nodup (t.set v).entries_nodup (t.cons_delete_nodup v)).mpr
  intro w
  rw [mem_set_iff, List.mem_cons]

theorem set_perm_of_not_mem {t : Table key} {v : ν} (h : key v ∉ t.keys) : (t.set v).entries.Perm (v :: t.entries) := by
  have hset := t.set_perm v
  rwa [show (t.delete (key v)).entries = t.entries from
    List.filter_eq_self.mpr fun w hw => decide_eq_true fun hkey => h (hkey ▸ List.mem_map_of_mem hw)] at hset

theorem length_delete_set_le (t : Table key) (v : ν) : ((t.set v).delete (key v)).entries.length ≤ t.entries.length := by
  have hset : ((t.set v).delete (key v)).entries.Perm ((v :: (t.delete (key v)).entries).filter fun w => key w ≠ key v) :=
    (t.set_perm v).filter _
  rw [List.filter_cons_of_neg (by simp)] at hset
  rw [hset.length_eq]
  exact Nat.le_trans (List.length_filter_le _ _) (List.length_filter_le _ _)

theorem perm_cons_delete {t : Table key} {v : ν} (h : t.get (key v) = some v) : t.entries.Perm (v :: (t.delete (key v)).entries) := by
  have hset := t.set_perm v
  rwa [set_eq_self t h] at hset

theorem length_le_length_delete (t : Table key) (k : κ) : t.entries.length ≤ (t.delete k).entries.length + 1 := by
  have hcount : (t.entries.map key).count k ≤ 1 := List.nodup_iff_count_le_one.mp t.nodup k
  rw [List.count, List.countP_map] at hcount
  have hone : (t.entries.countP fun v => decide (key v = k)) ≤ 1 := hcount
  have hsplit := List.length_eq_countP_add_countP (fun v => decide (key v = k)) (l := t.entries)
  simp only [decide_eq_true_eq] at hsplit
  have hdeleted : (t.delete k).entries.length = t.entries.countP fun v => decide ¬key v = k := List.countP_eq_length_filter.symm
  omega

theorem get_update (t : Table key) (f : ν → ν) (hf : ∀ v, key (f v) = key v) (k : κ) :
    (t.update f hf).get k = (t.get k).map f := by
  simp only [get, update, List.find?_map, Function.comp_def, hf]

/-- Rewrite the value under a key, if there is one. -/
def modify (t : Table key) (f : ν → ν) (k : κ) : Table key :=
  match t.get k with
  | some v => t.set (f v)
  | none => t

theorem keys_modify (t : Table key) (f : ν → ν) (hf : ∀ v, key (f v) = key v) (k : κ) : (t.modify f k).keys = t.keys := by
  rw [modify]
  split
  · rename_i v hget
    exact keys_set_of_mem (mem_keys_iff.mpr ⟨v, by rw [hf, key_of_get hget, hget]⟩)
  · rfl

theorem get_modify (t : Table key) (f : ν → ν) (hf : ∀ v, key (f v) = key v) (j k : κ) :
    (t.modify f j).get k = if k = j then (t.get k).map f else t.get k := by
  rw [modify]
  split
  · rename_i v hget
    have hkey : key (f v) = j := (hf v).trans (key_of_get hget)
    rw [get_set, hkey]
    by_cases hk : k = j
    · subst hk
      rw [if_pos rfl, if_pos rfl, hget, Option.map_some]
    · rw [if_neg (Ne.symm hk), if_neg hk]
  · rename_i hget
    split
    · rename_i hk
      rw [hk, hget, Option.map_none]
    · rfl

theorem foldl_modify (f : ν → ν) (hf : ∀ v, key (f v) = key v) (t : Table key) (ks : List κ) (hnodup : ks.Nodup) :
    let u := ks.foldl (fun u k => u.modify f k) t
    u.keys = t.keys ∧ ∀ k, u.get k = if k ∈ ks then (t.get k).map f else t.get k := by
  induction ks generalizing t with
  | nil => simp
  | cons j ks ih =>
      obtain ⟨hj, hks⟩ := List.nodup_cons.mp hnodup
      obtain ⟨hkeys, hvalues⟩ := ih (t.modify f j) hks
      refine ⟨hkeys.trans (keys_modify t f hf j), fun k => (hvalues k).trans ?_⟩
      rw [get_modify t f hf]
      by_cases hk : k = j
      · subst hk
        rw [if_neg hj, if_pos rfl, if_pos List.mem_cons_self]
      · simp only [List.mem_cons, hk, false_or, if_false]

theorem ext_of_get {t u : Table key} (hkeys : t.keys = u.keys) (hget : ∀ k, t.get k = u.get k) : t = u := by
  apply ext
  apply List.ext_getElem
  · simpa [keys] using congrArg List.length hkeys
  · intro i hi hi'
    have hkey : key t.entries[i] = key u.entries[i] := by
      have h := List.getElem_of_eq hkeys (i := i) (by simpa [keys] using hi)
      simpa [keys] using h
    have h := get_of_mem (List.getElem_mem hi)
    rw [hget, hkey, get_of_mem (List.getElem_mem hi')] at h
    exact (Option.some.inj h).symm

theorem update_set (t : Table key) (f : ν → ν) (hf : ∀ v, key (f v) = key v) (v : ν) :
    (t.set v).update f hf = (t.update f hf).set (f v) := by
  apply ext_of_get
  · rw [keys_update, keys_set, keys_set, keys_update, hf]
  · intro k
    rw [get_update, get_set, get_set, get_update, hf]
    split
    · rfl
    · rfl

theorem keys_delete (t : Table key) (k : κ) : (t.delete k).keys = t.keys.filter (· ≠ k) := by
  rw [keys, keys, delete, List.filter_map]
  rfl

theorem update_delete (t : Table key) (f : ν → ν) (hf : ∀ v, key (f v) = key v) (k : κ) :
    (t.delete k).update f hf = (t.update f hf).delete k := by
  apply ext_of_get
  · rw [keys_update, keys_delete, keys_delete, keys_update]
  · intro j
    rw [get_update, get_delete, get_delete, get_update]
    split
    · rfl
    · rfl
theorem foldl_modify_keys (f : ν → ν) (hf : ∀ v, key (f v) = key v) (t : Table key) :
    t.keys.foldl (fun u k => u.modify f k) t = t.update f hf := by
  obtain ⟨hkeys, hvalues⟩ := foldl_modify f hf t t.keys t.nodup
  refine ext_of_get (hkeys.trans (keys_update t f hf).symm) fun k => (hvalues k).trans ?_
  rw [get_update]
  split
  · rfl
  · rename_i habsent
    cases hget : t.get k with
    | none => rfl
    | some v => exact absurd (mem_keys_iff.mpr ⟨v, hget⟩) habsent

end Table

end BrowsercoreHttp2
