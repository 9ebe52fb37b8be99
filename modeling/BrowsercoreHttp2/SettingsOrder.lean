import BrowsercoreHttp2.Serializer
import BrowsercoreHttp2.Library.Arrangement

/-!
# The order of settings

A payload of SETTINGS is read here as the pairs it carries, in their order and with repetitions, which the
map of a parsed frame does not show. `collectSettingsEntries` goes through `settingsOrder` and emits an
entry at every place of the list that has one.
-/

namespace BrowsercoreHttp2

/-! ### Pairs of a payload -/

/-- The pairs that the settings loop goes through. -/
def settingPairs : Bytes → List (Nat × Nat)
  | i0 :: i1 :: v0 :: v1 :: v2 :: v3 :: rest => (bigEndian [i0, i1], bigEndian [v0, v1, v2, v3]) :: settingPairs rest
  | _ => []

theorem readSettings_eq_foldl (settings : SettingsMap) (payload : Bytes) :
    readSettings settings payload = (settingPairs payload).foldl (fun s entry => s.set entry.1 entry.2) settings := by
  induction payload using settingPairs.induct generalizing settings with
  | case1 i0 i1 v0 v1 v2 v3 rest ih => rw [readSettings, settingPairs, List.foldl_cons, ih]
  | case2 payload hshort =>
      rw [settingPairs, readSettings, List.foldl_nil]
      · exact hshort
      · exact hshort

/-- What the fields of a setting hold of an entry. -/
def wireSetting (entry : Nat × Nat) : Nat × Nat := (entry.1 % 2 ^ 16, entry.2 % 2 ^ 32)

theorem wireSetting_eq_self_iff {entry : Nat × Nat} : wireSetting entry = entry ↔ entry.1 < 2 ^ 16 ∧ entry.2 < 2 ^ 32 := by
  rw [wireSetting, Prod.ext_iff]
  refine and_congr ?_ ?_
  · simp only
    omega
  · simp only
    omega

theorem settingPairs_flatMap (entries : List (Nat × Nat)) :
    settingPairs (entries.flatMap settingOctets) = entries.map wireSetting := by
  induction entries with
  | nil => rfl
  | cons entry rest ih =>
      have hid : bigEndian (octetsOf 2 (entry.1 % 256 ^ 2)) = entry.1 % 256 ^ 2 := by rw [bigEndian_octetsOf, Nat.mod_mod]
      have hvalue : bigEndian (octetsOf 4 (entry.2 % 256 ^ 4)) = entry.2 % 256 ^ 4 := by rw [bigEndian_octetsOf, Nat.mod_mod]
      rw [List.flatMap_cons, settingOctets, show setUint16 = setUint 2 from rfl, show setUint32 = setUint 4 from rfl,
        setUint_natCast, setUint_natCast, List.map_cons, ← ih, wireSetting]
      simp only [octetsOf, List.cons_append, List.nil_append, settingPairs, Nat.reducePow] at hid hvalue ⊢
      rw [hid, hvalue]

/-! ### The documented order -/

variable {frame : SettingsFrame}

def greaseEntries (nibble : Nat) (frame : SettingsFrame) : List (Nat × Nat) :=
  if frame.grease then [(generateHttp2GreaseValue nibble, 0)] else []

/-- GREASE first, then the settings listed in `settingsOrder`, then the others in natural order. -/
def documentedEntries (nibble : Nat) (frame : SettingsFrame) : List (Nat × Nat) :=
  greaseEntries nibble frame ++ arranged Prod.fst (frame.settingsOrder.getD []) frame.settings.entries

theorem SettingsMap.nodup_keys (settings : SettingsMap) : (settings.entries.map Prod.fst).Nodup :=
  settings.ascending.imp Nat.ne_of_lt

theorem SettingsMap.find_eq_get (settings : SettingsMap) (id : Nat) :
    (settings.entries.find? fun entry => entry.1 = id) = (settings.get id).map (id, ·) := by
  apply Option.ext
  intro entry
  rw [find_eq_some_iff settings.nodup_keys, SettingsMap.mem_iff_get, Option.map_eq_some_iff]
  refine Iff.intro (fun ⟨hget, hid⟩ => ⟨entry.2, hid ▸ hget, Prod.ext hid.symm rfl⟩) fun ⟨value, hget, hentry⟩ => ?_
  rw [← hentry]
  exact ⟨hget, rfl⟩

theorem collectSettingsEntries_eq (nibble : Nat) (frame : SettingsFrame) :
    collectSettingsEntries nibble frame = greaseEntries nibble frame ++
      (((frame.settingsOrder.getD []).filterMap fun id => frame.settings.entries.find? fun entry => entry.1 = id) ++
        unlisted Prod.fst (frame.settingsOrder.getD []) frame.settings.entries) := by
  rw [collectSettingsEntries]
  cases frame.settingsOrder with
  | none =>
      have hall : arranged Prod.fst [] frame.settings.entries = frame.settings.entries := arranged_nil _
      exact congrArg (greaseEntries nibble frame ++ ·) hall.symm
  | some order =>
      simp only [Option.getD_some, SettingsMap.find_eq_get, List.append_assoc]
      rfl

theorem greaseEntries_fit (nibble : Nat) : ∀ entry ∈ greaseEntries nibble frame, wireSetting entry = entry := by
  intro entry hentry
  rw [greaseEntries] at hentry
  split at hentry
  · rw [List.mem_singleton.mp hentry, wireSetting_eq_self_iff]
    have hnibble : nibble &&& 0xf < 2 ^ 4 := Nat.and_lt_two_pow nibble (by decide)
    have hbyte : (nibble &&& 0xf) <<< 4 ||| 0x0a < 2 ^ 8 :=
      Nat.or_lt_two_pow (by rw [Nat.shiftLeft_eq]; omega) (by decide)
    refine And.intro ?_ (Nat.two_pow_pos 32)
    rw [generateHttp2GreaseValue]
    have hshift : ((nibble &&& 0xf) <<< 4 ||| 0x0a) <<< 8 < 2 ^ 16 := by
      rw [Nat.shiftLeft_eq]
      omega
    exact Nat.or_lt_two_pow hshift (by omega)
  · exact absurd hentry List.not_mem_nil

theorem settingPairs_serializePayload (nibble : Nat) (hack : frame.ack = false) :
    settingPairs (serializePayload nibble (.settings frame)) = (collectSettingsEntries nibble frame).map wireSetting := by
  rw [serializePayload, hack, ← settingPairs_flatMap]
  rfl

theorem fit_of_settingPairs {nibble : Nat} (hack : frame.ack = false)
    (hpairs : settingPairs (serializePayload nibble (.settings frame)) = documentedEntries nibble frame) :
    ∀ entry ∈ frame.settings.entries, wireSetting entry = entry := by
  intro entry hentry
  have hmem : entry ∈ documentedEntries nibble frame :=
    List.mem_append_right _ ((arranged_perm _ frame.settings.nodup_keys).mem_iff.mpr hentry)
  rw [← hpairs, settingPairs_serializePayload nibble hack] at hmem
  obtain ⟨written, _, hwritten⟩ := List.mem_map.mp hmem
  rw [← hwritten, wireSetting, wireSetting, Nat.mod_mod, Nat.mod_mod]

theorem map_wireSetting_collectSettingsEntries (nibble : Nat)
    (hfit : ∀ entry ∈ frame.settings.entries, wireSetting entry = entry) :
    (collectSettingsEntries nibble frame).map wireSetting = collectSettingsEntries nibble frame := by
  refine (List.map_congr_left fun entry hentry => ?_).trans (List.map_id _)
  rw [collectSettingsEntries_eq, List.mem_append, List.mem_append] at hentry
  obtain hgrease | hlisted | hunlisted := hentry
  · exact greaseEntries_fit nibble entry hgrease
  · obtain ⟨id, _, hfind⟩ := List.mem_filterMap.mp hlisted
    exact hfit entry (List.mem_of_find?_eq_some hfind)
  · exact hfit entry (mem_unlisted.mp hunlisted).1

/-- The payload carries GREASE and every setting once in the documented order exactly when no setting is
listed twice and every setting fits its fields. -/
theorem settings_documented_iff (nibble : Nat) (hack : frame.ack = false) :
    settingPairs (serializePayload nibble (.settings frame)) = documentedEntries nibble frame ∧
        (documentedEntries nibble frame).Perm (greaseEntries nibble frame ++ frame.settings.entries) ↔
      (∀ id, (frame.settings.get id).isSome → (frame.settingsOrder.getD []).count id ≤ 1) ∧
        ∀ entry ∈ frame.settings.entries, entry.1 < 2 ^ 16 ∧ entry.2 < 2 ^ 32 := by
  have hperm : (documentedEntries nibble frame).Perm (greaseEntries nibble frame ++ frame.settings.entries) :=
    (arranged_perm (frame.settingsOrder.getD []) frame.settings.nodup_keys).append_left _
  have honce : collectSettingsEntries nibble frame = documentedEntries nibble frame ↔
      ∀ id, (frame.settings.get id).isSome → (frame.settingsOrder.getD []).count id ≤ 1 := by
    rw [collectSettingsEntries_eq, documentedEntries, List.append_cancel_left_eq, emitted_eq_arranged_iff]
    simp only [SettingsMap.find_eq_get, Option.isSome_map]
  simp only [← wireSetting_eq_self_iff, ← honce, and_iff_left hperm, settingPairs_serializePayload nibble hack]
  refine Iff.intro (fun hpairs => ?_) fun ⟨hcollected, hfit⟩ => ?_
  · have hfit := fit_of_settingPairs hack ((settingPairs_serializePayload nibble hack).trans hpairs)
    rw [map_wireSetting_collectSettingsEntries nibble hfit] at hpairs
    exact ⟨hpairs, hfit⟩
  · rw [map_wireSetting_collectSettingsEntries nibble hfit, hcollected]

theorem settings_documented_iff_reversed :
    let frame : SettingsFrame :=
      { flags := 0, streamId := 0, ack := false, settings := (SettingsMap.empty.set 1 4096).set 4 65535
        settingsOrder := some [4, 3, 1] }
    settingPairs (serializePayload 0 (.settings frame)) = [(4, 65535), (1, 4096)] := by
  intro frame
  have hentries : frame.settings.entries = [(1, 4096), (4, 65535)] := rfl
  have honce : ∀ id, (frame.settings.get id).isSome → (frame.settingsOrder.getD []).count id ≤ 1 := by
    intro id _
    exact List.nodup_iff_count_le_one.mp (by decide : [4, 3, 1].Nodup) id
  have hfit : ∀ entry ∈ frame.settings.entries, entry.1 < 2 ^ 16 ∧ entry.2 < 2 ^ 32 := by
    rw [hentries]
    decide
  exact ((settings_documented_iff 0 rfl).mpr ⟨honce, hfit⟩).1.trans (by decide)

/-- A setting that is listed twice is sent twice. -/
theorem settings_listed_twice :
    let frame : SettingsFrame :=
      { flags := 0, streamId := 0, ack := false, settings := SettingsMap.empty.set 1 4096, settingsOrder := some [1, 1] }
    settingPairs (serializePayload 0 (.settings frame)) = [(1, 4096), (1, 4096)] ∧
      settingPairs (serializePayload 0 (.settings frame)) ≠ documentedEntries 0 frame := by
  intro frame
  have hpairs : settingPairs (serializePayload 0 (.settings frame)) = [(1, 4096), (1, 4096)] :=
    (settingPairs_serializePayload 0 rfl).trans (by decide)
  refine ⟨hpairs, ?_⟩
  rw [hpairs]
  decide

end BrowsercoreHttp2
