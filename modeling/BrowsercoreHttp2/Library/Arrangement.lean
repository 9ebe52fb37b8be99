import BrowsercoreHttp2.Library.Table
import Mathlib.Data.List.Perm.Basic

/-!
# Arranging keyed values by a list of keys

The values whose keys are listed come first, by the first place of their key in the list, and the others
keep their own order. The list may repeat keys and name keys that no value has. Setting the listed values
of a table one after the other, and then the rest, arranges them.
-/

namespace BrowsercoreHttp2

variable {κ ν : Type} [DecidableEq κ] {key : ν → κ}

/-! ### First occurrences -/

theorem nodup_eraseDups [DecidableEq ν] (l : List ν) : l.eraseDups.Nodup := by
  cases l with
  | nil => exact List.nodup_nil
  | cons v rest =>
      rw [List.eraseDups_cons, List.nodup_cons]
      refine And.intro (fun hmem => ?_) (nodup_eraseDups _)
      simpa using List.mem_eraseDups.mp hmem
termination_by l.length
decreasing_by
  have hfilter := List.length_filter_le (fun w => !w == v) rest
  rw [List.length_cons]
  omega

theorem eraseDups_eq_self_iff [DecidableEq ν] {l : List ν} : l.eraseDups = l ↔ l.Nodup := by
  refine Iff.intro (fun h => h ▸ nodup_eraseDups l) fun hnodup => ?_
  induction l with
  | nil => rfl
  | cons v rest ih =>
      obtain ⟨hv, hrest⟩ := List.nodup_cons.mp hnodup
      have hothers : rest.filter (fun w => !w == v) = rest := by
        refine List.filter_eq_self.mpr fun w hw => ?_
        have hne : w ≠ v := fun heq => hv (heq ▸ hw)
        simpa using hne
      rw [List.eraseDups_cons, hothers, ih hrest]

/-- Looking keys up commutes with dropping the repetitions when no two keys find one value. -/
theorem eraseDups_filterMap [DecidableEq ν] {find : κ → Option ν} (hkey : ∀ {k v}, find k = some v → key v = k)
    (names : List κ) : (names.filterMap find).eraseDups = names.eraseDups.filterMap find := by
  cases names with
  | nil => rfl
  | cons name rest =>
      have hrest := eraseDups_filterMap hkey (rest.filter fun k => !k == name)
      rw [List.eraseDups_cons]
      cases hfind : find name with
      | none =>
          -- A key that finds nothing may be dropped wherever it stands.
          have hdrop : (rest.filter fun k => !k == name).filterMap find = rest.filterMap find := by
            rw [List.filterMap_filter]
            refine List.filterMap_congr fun k _ => ?_
            by_cases hk : k = name
            · simp [hk, hfind]
            · simp [hk]
          rw [List.filterMap_cons_none hfind, List.filterMap_cons_none hfind, ← hrest, hdrop]
      | some v =>
          have hdrop : (rest.filterMap find).filter (fun w => !w == v) = (rest.filter fun k => !k == name).filterMap find := by
            rw [List.filterMap_filter, List.filter_filterMap]
            refine List.filterMap_congr fun k _ => ?_
            by_cases hk : k = name
            · simp [hk, hfind]
            · cases hw : find k with
              | none => simp [hk]
              | some w =>
                  have hne : w ≠ v := fun heq => hk ((hkey hw).symm.trans ((congrArg key heq).trans (hkey hfind)))
                  simp [hk, hne]
          rw [List.filterMap_cons_some hfind, List.filterMap_cons_some hfind, List.eraseDups_cons, hdrop, hrest]
termination_by names.length
decreasing_by
  have hfilter := List.length_filter_le (fun k => !k == name) rest
  rw [List.length_cons]
  omega

/-- A list of keys finds no value twice when none of the keys that find one is repeated. -/
theorem nodup_filterMap_iff {find : κ → Option ν} (hkey : ∀ {k v}, find k = some v → key v = k) (names : List κ) :
    (names.filterMap find).Nodup ↔ ∀ name, (find name).isSome → names.count name ≤ 1 := by
  induction names with
  | nil => simp
  | cons name rest ih =>
      cases hfind : find name with
      | none =>
          rw [List.filterMap_cons_none hfind, ih]
          refine forall_congr' fun other => imp_congr_right fun hother => ?_
          have hne : name ≠ other := fun heq => by simp [← heq, hfind] at hother
          rw [List.count_cons_of_ne hne]
      | some v =>
          have hmem : v ∈ rest.filterMap find ↔ name ∈ rest := by
            rw [List.mem_filterMap]
            refine Iff.intro (fun ⟨other, hother, hv⟩ => ?_) fun hname => ⟨name, hname, hfind⟩
            rwa [← hkey hfind, hkey hv]
          rw [List.filterMap_cons_some hfind, List.nodup_cons, hmem, ih]
          refine Iff.intro (fun ⟨hname, hrest⟩ other hother => ?_) fun h => And.intro (fun hname => ?_) fun other hother => ?_
          · by_cases heq : name = other
            · have hzero := List.count_eq_zero.mpr hname
              rw [← heq, List.count_cons_self]
              omega
            · rw [List.count_cons_of_ne heq]
              exact hrest other hother
          · have hcount := h name (by rw [hfind, Option.isSome_some])
            have hpos := List.count_pos_iff.mpr hname
            rw [List.count_cons_self] at hcount
            omega
          · have hle : rest.count other ≤ (name :: rest).count other := List.count_le_count_cons
            have hcount := h other hother
            omega

/-! ### Arrangements -/

/-- The values under listed keys, each at the first occurrence of its key. -/
def listed (key : ν → κ) (names : List κ) (values : List ν) : List ν :=
  names.eraseDups.filterMap fun name => values.find? fun v => key v = name

/-- The values under keys that are not listed, in their own order. -/
def unlisted (key : ν → κ) (names : List κ) (values : List ν) : List ν :=
  values.filter fun v => key v ∉ names

def arranged (key : ν → κ) (names : List κ) (values : List ν) : List ν :=
  listed key names values ++ unlisted key names values

theorem key_of_find {values : List ν} {name : κ} {v : ν} (h : (values.find? fun v => key v = name) = some v) : key v = name := by
  simpa using List.find?_some h

@[simp] theorem arranged_nil (values : List ν) : arranged key [] values = values := by
  simp [arranged, listed, unlisted]

theorem mem_unlisted {names : List κ} {values : List ν} {v : ν} :
    v ∈ unlisted key names values ↔ v ∈ values ∧ key v ∉ names := by
  simp [unlisted]

theorem find_eq_some_iff {values : List ν} (hnodup : (values.map key).Nodup) {name : κ} {v : ν} :
    (values.find? fun v => key v = name) = some v ↔ v ∈ values ∧ key v = name :=
  Table.get_eq_some_iff (t := ⟨values, hnodup⟩)

theorem mem_listed {values : List ν} (hnodup : (values.map key).Nodup) {names : List κ} {v : ν} :
    v ∈ listed key names values ↔ v ∈ values ∧ key v ∈ names := by
  simp only [listed, List.mem_filterMap, List.mem_eraseDups, find_eq_some_iff hnodup]
  refine Iff.intro (fun ⟨name, hname, hv, hkey⟩ => ⟨hv, hkey ▸ hname⟩) fun ⟨hv, hname⟩ => ⟨key v, hname, hv, rfl⟩

theorem nodup_listed [DecidableEq ν] (names : List κ) (values : List ν) : (listed key names values).Nodup := by
  rw [listed, ← eraseDups_filterMap key_of_find]
  exact nodup_eraseDups _

theorem arranged_perm [DecidableEq ν] (names : List κ) {values : List ν} (hnodup : (values.map key).Nodup) :
    (arranged key names values).Perm values := by
  have hunlisted : (unlisted key names values).Nodup := (hnodup.of_map key).filter _
  have hdisjoint : List.Disjoint (listed key names values) (unlisted key names values) := fun v hv hv' =>
    (mem_unlisted.mp hv').2 ((mem_listed hnodup).mp hv).2
  refine (List.perm_ext_iff_of_nodup ((nodup_listed names values).append hunlisted hdisjoint) (hnodup.of_map key)).mpr
    fun v => ?_
  rw [List.mem_append, mem_listed hnodup, mem_unlisted, ← and_or_left]
  exact and_iff_left (Decidable.em _)

/-- Emitting a value at every occurrence of its key arranges the values exactly when no key of a value is
repeated. -/
theorem emitted_eq_arranged_iff [DecidableEq ν] {values : List ν} (names : List κ) :
    (names.filterMap fun name => values.find? fun v => key v = name) ++ unlisted key names values = arranged key names values ↔
      ∀ name, (values.find? fun v => key v = name).isSome → names.count name ≤ 1 := by
  rw [arranged, List.append_cancel_right_eq, listed, ← eraseDups_filterMap key_of_find, eq_comm, eraseDups_eq_self_iff,
    nodup_filterMap_iff key_of_find]

/-! ### Arranging a table -/

namespace Table

/-- Setting values of which one key has only one appends each at its first occurrence. -/
theorem entries_foldl_set [DecidableEq ν] (values : List ν) (t : Table key)
    (hsame : ∀ v ∈ values, ∀ w ∈ values, key v = key w → v = w) (hfresh : ∀ v ∈ values, key v ∈ t.keys → v ∈ t.entries) :
    (values.foldl set t).entries = t.entries ++ (values.filter (· ∉ t.entries)).eraseDups := by
  induction values generalizing t with
  | nil => simp
  | cons v rest ih =>
      have hsame' : ∀ u ∈ rest, ∀ w ∈ rest, key u = key w → u = w := fun u hu w hw =>
        hsame u (List.mem_cons_of_mem v hu) w (List.mem_cons_of_mem v hw)
      rw [List.foldl_cons]
      by_cases hv : v ∈ t.entries
      · rw [set_eq_self t (get_of_mem hv), ih t hsame' fun w hw => hfresh w (List.mem_cons_of_mem v hw),
          List.filter_cons_of_neg (by simpa using hv)]
      · have hentries : (t.set v).entries = t.entries ++ [v] :=
          setEntries_of_not_mem fun hkey => hv (hfresh v List.mem_cons_self hkey)
        have hfresh' : ∀ w ∈ rest, key w ∈ (t.set v).keys → w ∈ (t.set v).entries := by
          intro w hw hkey
          rw [keys, hentries, List.map_append, List.mem_append, List.map_singleton, List.mem_singleton] at hkey
          rw [hentries, List.mem_append, List.mem_singleton]
          exact hkey.imp (hfresh w (List.mem_cons_of_mem v hw))
            fun heq => hsame w (List.mem_cons_of_mem v hw) v List.mem_cons_self heq
        have hothers : rest.filter (· ∉ t.entries ++ [v]) = (rest.filter (· ∉ t.entries)).filter fun w => !w == v := by
          rw [List.filter_filter]
          refine List.filter_congr fun w _ => ?_
          by_cases hw : w = v <;> simp [hw]
        rw [ih _ hsame' hfresh', hentries, List.filter_cons_of_pos (by simpa using hv), List.eraseDups_cons, hothers,
          List.append_assoc, List.singleton_append]

theorem entries_foldl_set_fresh [DecidableEq ν] {values : List ν} (t : Table key) (hnodup : (values.map key).Nodup)
    (hfresh : ∀ v ∈ values, key v ∉ t.keys) : (values.foldl set t).entries = t.entries ++ values := by
  rw [entries_foldl_set values t (fun v hv w hw => List.inj_on_of_nodup_map hnodup hv hw) fun v hv hkey => absurd hkey (hfresh v hv)]
  have hfilter : values.filter (· ∉ t.entries) = values :=
    List.filter_eq_self.mpr fun v hv => decide_eq_true fun hmem => hfresh v hv (List.mem_map_of_mem hmem)
  rw [hfilter, eraseDups_eq_self_iff.mpr (hnodup.of_map key)]

/-- Setting the values that a list of keys finds appends them in its order. -/
theorem entries_foldl_listed [DecidableEq ν] {values : List ν} (t : Table key) (hfresh : ∀ v ∈ values, key v ∉ t.keys)
    (names : List κ) :
    ((names.filterMap fun name => values.find? fun v => key v = name).foldl set t).entries =
      t.entries ++ listed key names values := by
  set found := names.filterMap fun name => values.find? fun v => key v = name with hfound
  have hmem : ∀ v ∈ found, ∃ name, (values.find? fun v => key v = name) = some v := by
    intro v hv
    obtain ⟨name, _, hfind⟩ := List.mem_filterMap.mp hv
    exact ⟨name, hfind⟩
  have hfresh' : ∀ v ∈ found, key v ∉ t.keys := by
    intro v hv
    obtain ⟨name, hfind⟩ := hmem v hv
    exact hfresh v (List.mem_of_find?_eq_some hfind)
  have hsame : ∀ v ∈ found, ∀ w ∈ found, key v = key w → v = w := by
    intro v hv w hw hkey
    obtain ⟨name, hfind⟩ := hmem v hv
    obtain ⟨name', hfind'⟩ := hmem w hw
    have hname : name = name' := by rw [← key_of_find hfind, ← key_of_find hfind', hkey]
    rw [hname, hfind'] at hfind
    exact (Option.some.inj hfind).symm
  rw [entries_foldl_set found t hsame fun v hv hkey => absurd hkey (hfresh' v hv)]
  have hfilter : found.filter (· ∉ t.entries) = found :=
    List.filter_eq_self.mpr fun v hv => decide_eq_true fun hmem => hfresh' v hv (List.mem_map_of_mem hmem)
  rw [hfilter, hfound, eraseDups_filterMap key_of_find, listed]

theorem fresh_foldl_listed [DecidableEq ν] {values : List ν} {t : Table key} (hnodup : (values.map key).Nodup)
    (hfresh : ∀ v ∈ values, key v ∉ t.keys) (names : List κ) {v : ν} (hv : v ∈ values) (hname : key v ∉ names) :
    key v ∉ ((names.filterMap fun name => values.find? fun v => key v = name).foldl set t).keys := by
  intro hkey
  rw [keys, entries_foldl_listed t hfresh, List.map_append, List.mem_append] at hkey
  refine hkey.elim (hfresh v hv) fun hlisted => ?_
  obtain ⟨w, hw, heq⟩ := List.mem_map.mp hlisted
  exact hname (heq ▸ ((mem_listed hnodup).mp hw).2)

theorem entries_foldl_arranged [DecidableEq ν] {values : List ν} {t : Table key} (hnodup : (values.map key).Nodup)
    (hfresh : ∀ v ∈ values, key v ∉ t.keys) (names : List κ) :
    ((unlisted key names values).foldl set
        ((names.filterMap fun name => values.find? fun v => key v = name).foldl set t)).entries =
      t.entries ++ arranged key names values := by
  have hunlisted : ((unlisted key names values).map key).Nodup := hnodup.sublist (List.filter_sublist.map key)
  have hset := entries_foldl_set_fresh _ hunlisted fun v hv =>
    fresh_foldl_listed hnodup hfresh names (mem_unlisted.mp hv).1 (mem_unlisted.mp hv).2
  rw [hset, entries_foldl_listed t hfresh, List.append_assoc, arranged]

end Table

end BrowsercoreHttp2
