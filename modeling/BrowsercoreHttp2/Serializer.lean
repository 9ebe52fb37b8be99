import BrowsercoreHttp2.Frame
import BrowsercoreHttp2.Javascript.Bitwise
import BrowsercoreHttp2.Library.BigEndian

/-!
# The frame serializer

`serializeFrame` writes one frame through the setters of a `DataView`, which take a number modulo the
width of the field. Within the ranges of the wire, `parseFrame` reads back the frame that was written,
whatever follows it in the buffer.
-/

namespace BrowsercoreHttp2

/-- What a setter of `width` octets writes. -/
def setUint (width : Nat) (value : Int) : Bytes := octetsOf width (value % 256 ^ width).toNat

def setUint8 : Int → Bytes := setUint 1

def setUint16 : Int → Bytes := setUint 2

def setUint32 : Int → Bytes := setUint 4

def setBigUint64 : Int → Bytes := setUint 8

/-- A GREASE value. Its nibble is drawn at random by the source and an argument here. -/
def generateHttp2GreaseValue (nibble : Nat) : Nat :=
  let byte := (nibble &&& 0xf) <<< 4 ||| 0x0a
  byte <<< 8 ||| byte

def collectSettingsEntries (nibble : Nat) (frame : SettingsFrame) : List (Nat × Nat) :=
  let grease := if frame.grease then [(generateHttp2GreaseValue nibble, 0)] else []
  match frame.settingsOrder with
  | none => grease ++ frame.settings.entries
  | some order =>
      grease ++ order.filterMap (fun id => (frame.settings.get id).map (id, ·)) ++
        frame.settings.entries.filter fun entry => entry.1 ∉ order

def serializePayload (nibble : Nat) : Frame → Bytes
  | .data frame => frame.payload
  | .headers frame => frame.payload
  | .pushPromise frame => frame.payload
  | .continuation frame => frame.payload
  | .priority frame =>
      let exclusive := if frame.exclusive then 0x80000000 else 0
      setUint32 (Js.bitOr exclusive (Js.bitAnd frame.streamDependency 0x7fffffff)) ++ setUint8 (Js.bitAnd frame.weight 0xff)
  | .rstStream frame => setUint32 frame.errorCode
  | .settings frame =>
      if frame.ack then []
      else (collectSettingsEntries nibble frame).flatMap fun entry => setUint16 entry.1 ++ setUint32 entry.2
  | .ping frame => setBigUint64 frame.opaqueData
  | .goaway frame =>
      setUint32 (Js.bitAnd frame.lastStreamId 0x7fffffff) ++ setUint32 frame.errorCode ++ frame.debugData
  | .windowUpdate frame => setUint32 (Js.bitAnd frame.windowSizeIncrement 0x7fffffff)

def serializeFrame (nibble : Nat) (frame : Frame) : Bytes :=
  let payload := serializePayload nibble frame
  let length := payload.length
  setUint8 (Js.bitAnd (Js.unsignedShiftRight length 16) 0xff) ++
    setUint8 (Js.bitAnd (Js.unsignedShiftRight length 8) 0xff) ++
    setUint8 (Js.bitAnd length 0xff) ++
    setUint8 frame.type.value ++
    setUint8 frame.flags ++
    setUint32 (Js.bitAnd frame.streamId 0x7fffffff) ++
    payload

/-! ### Fields -/

theorem setUint_natCast (width n : Nat) : setUint width n = octetsOf width (n % 256 ^ width) := by
  rw [setUint]
  norm_cast

@[simp] theorem setUint_length (width : Nat) (value : Int) : (setUint width value).length = width := by
  rw [setUint, octetsOf_length]

theorem bigEndian_octetsOf (width n : Nat) : bigEndian (octetsOf width n) = n % 256 ^ width := by
  rw [bigEndian, foldl_octetsOf, Nat.zero_mul, Nat.zero_add]

theorem getUint_octetsOf {width n : Nat} (hn : n < 256 ^ width) (before after : Bytes) :
    getUint width (before ++ octetsOf width n ++ after) before.length = .ok n := by
  have hfits : before.length + width ≤ (before ++ octetsOf width n ++ after).length := by
    simp only [List.length_append, octetsOf_length]
    omega
  rw [getUint, if_pos hfits, List.append_assoc, List.drop_left, List.take_left' (octetsOf_length width n),
    bigEndian_octetsOf, Nat.mod_eq_of_lt hn]

theorem getUint_first {width n : Nat} (hn : n < 256 ^ width) (after : Bytes) :
    getUint width (octetsOf width n ++ after) 0 = .ok n := getUint_octetsOf hn [] after

theorem getUint_only {width n : Nat} (hn : n < 256 ^ width) : getUint width (octetsOf width n) 0 = .ok n := by
  have hread := getUint_first hn []
  rwa [List.append_nil] at hread

theorem setUint_of_lt {width n : Nat} (hn : n < 256 ^ width) : setUint width n = octetsOf width n := by
  rw [setUint_natCast, Nat.mod_eq_of_lt hn]

theorem and_low31 (n : Nat) : n &&& 0x7fffffff = n % 2 ^ 31 := Nat.and_two_pow_sub_one_eq_mod n 31

theorem setUint32_low31 {n : Nat} (hn : n < 2 ^ 31) : setUint32 (Js.bitAnd n 0x7fffffff) = octetsOf 4 n := by
  have hmask := Js.bitAnd_natCast n (m := 0x7fffffff) (by norm_num)
  rw [and_low31, Nat.mod_eq_of_lt hn] at hmask
  rw [show Js.bitAnd n 0x7fffffff = n from hmask]
  exact setUint_of_lt (by omega)

theorem setUint8_low8 (n : Nat) : setUint8 (Js.bitAnd n 0xff) = octetsOf 1 n := by
  have hmask := Js.bitAnd_natCast n (m := 0xff) (by norm_num)
  rw [show (n &&& 0xff) = n % 2 ^ 8 from Nat.and_two_pow_sub_one_eq_mod n 8] at hmask
  rw [show Js.bitAnd n 0xff = (n % 2 ^ 8 : Nat) from hmask, show setUint8 = setUint 1 from rfl, setUint_natCast]
  apply congrArg (· :: [])
  apply UInt8.toNat_inj.mp
  simp

theorem exclusive_word (exclusive : Bool) {n : Nat} (hn : n < 2 ^ 31) : 2 ^ 31 * exclusive.toNat + n < 2 ^ 32 := by
  cases exclusive <;> simp only [Bool.toNat_true, Bool.toNat_false] <;> omega

/-- The exclusive bit above a dependency of 31 bits. The number handed to the setter is negative when the
bit is set. -/
theorem setUint32_exclusive (exclusive : Bool) {n : Nat} (hn : n < 2 ^ 31) :
    setUint32 (Js.bitOr (if exclusive then 0x80000000 else 0) (Js.bitAnd n 0x7fffffff)) =
      octetsOf 4 (2 ^ 31 * exclusive.toNat + n) := by
  have hmask := Js.bitAnd_natCast n (m := 0x7fffffff) (by norm_num)
  rw [and_low31, Nat.mod_eq_of_lt hn] at hmask
  have hbit : (if exclusive then 0x80000000 else 0 : Int) = (2 ^ 31 * exclusive.toNat : Nat) := by
    cases exclusive <;> rfl
  rw [show Js.bitAnd n 0x7fffffff = n from hmask, hbit, show setUint32 = setUint 4 from rfl, setUint,
    show ((256 : Int) ^ 4) = 2 ^ 32 by norm_num, Js.bitOr_emod, ← Nat.two_pow_add_eq_or_of_lt hn,
    Nat.mod_eq_of_lt (exclusive_word exclusive hn)]

theorem exclusive_bit (exclusive : Bool) {n : Nat} (hn : n < 2 ^ 31) :
    decide ((2 ^ 31 * exclusive.toNat + n) &&& 0x80000000 ≠ 0) = exclusive := by
  have hbit : (2 ^ 31 * exclusive.toNat + n).testBit 31 = exclusive := by
    rw [Nat.testBit_eq_decide_div_mod_eq]
    cases exclusive <;> simp only [Bool.toNat_true, Bool.toNat_false, decide_eq_true_eq, decide_eq_false_iff_not] <;> omega
  rw [show (0x80000000 : Nat) = 2 ^ 31 from rfl, Nat.and_two_pow, hbit]
  cases exclusive <;> rfl

theorem FrameType.value_lt (type : FrameType) : type.value < 256 := by
  cases type <;> decide

/-! ### Frames as octets -/

/-- The octets of a frame: length, type, flags and stream, then the payload. -/
def frameOctets (type flags : Nat) (streamId : StreamId) (payload : Bytes) : Bytes :=
  octetsOf 3 payload.length ++ octetsOf 1 type ++ octetsOf 1 flags ++ octetsOf 4 streamId ++ payload

theorem serializeFrame_eq (nibble : Nat) {frame : Frame} (hflags : frame.flags < 2 ^ 8) (hstream : frame.streamId < 2 ^ 31)
    (hlength : (serializePayload nibble frame).length < 2 ^ 24) :
    serializeFrame nibble frame =
      frameOctets frame.type.value frame.flags frame.streamId (serializePayload nibble frame) := by
  have htype : frame.type.value < 256 ^ 1 := frame.type.value_lt
  have hshift := Js.unsignedShiftRight_natCast (n := (serializePayload nibble frame).length) (by omega)
  rw [serializeFrame, frameOctets]
  simp only [hshift, setUint8_low8, setUint32_low31 hstream]
  rw [show setUint8 = setUint 1 from rfl, setUint_of_lt htype, setUint_of_lt (by omega)]
  simp [octetsOf, Nat.shiftRight_eq_div_pow]

theorem parseFrameHeader_frameOctets {type flags : Nat} {streamId : StreamId} {payload : Bytes} (htype : type < 2 ^ 8)
    (hflags : flags < 2 ^ 8) (hstream : streamId < 2 ^ 31) (hlength : payload.length < 2 ^ 24) (trailing : Bytes) :
    parseFrameHeader (frameOctets type flags streamId payload ++ trailing) =
      .ok { type, flags, streamId, length := payload.length } := by
  have hstreamId : bigEndian (octetsOf 4 streamId) &&& 0x7fffffff = streamId := by
    rw [bigEndian_octetsOf, and_low31, Nat.mod_mod_of_dvd streamId (by norm_num), Nat.mod_eq_of_lt hstream]
  have hlen := bigEndian_octetsOf 3 payload.length
  have hoctet : ∀ n : Nat, n < 2 ^ 8 → (UInt8.ofNat (n / 256 ^ 0)).toNat = n := by
    intro n hn
    simp
    omega
  simp only [octetsOf, bigEndian, List.foldl_cons, List.foldl_nil, Nat.zero_mul, Nat.zero_add] at hstreamId hlen
  simp only [frameOctets, octetsOf, List.cons_append, List.nil_append, parseFrameHeader, hoctet type htype,
    hoctet flags hflags, shift_or_shift_or, hlen, bigEndian, List.foldl_cons, List.foldl_nil, Nat.zero_mul, Nat.zero_add,
    hstreamId]
  rw [Nat.mod_eq_of_lt (by omega)]

theorem parseFrame_frameOctets {type flags : Nat} {streamId : StreamId} {payload : Bytes} (htype : type < 2 ^ 8)
    (hflags : flags < 2 ^ 8) (hstream : streamId < 2 ^ 31) (hlength : payload.length < 2 ^ 24) (trailing : Bytes) :
    parseFrame (frameOctets type flags streamId payload ++ trailing) = decodeFrame type flags streamId payload := by
  have hheader := parseFrameHeader_frameOctets htype hflags hstream hlength trailing
  have hpayload : (frameOctets type flags streamId payload ++ trailing).drop frameHeaderLength = payload ++ trailing := by
    rw [frameOctets, List.append_assoc]
    exact List.drop_left' (by simp [frameHeaderLength])
  have hlong : ¬(frameOctets type flags streamId payload ++ trailing).length < frameHeaderLength + payload.length := by
    simp only [frameOctets, frameHeaderLength, List.length_append, octetsOf_length]
    omega
  rw [parseFrame, hheader]
  simp only [bind, Except.bind, if_neg hlong, hpayload, List.take_left]

/-! ### Settings -/

def settingOctets (entry : Nat × Nat) : Bytes := setUint16 entry.1 ++ setUint32 entry.2

/-- The settings loop reads back the entries that were written, one after the other. -/
theorem readSettings_flatMap {entries : List (Nat × Nat)} (hrange : ∀ entry ∈ entries, entry.1 < 2 ^ 16 ∧ entry.2 < 2 ^ 32)
    (settings : SettingsMap) :
    readSettings settings (entries.flatMap settingOctets) = entries.foldl (fun s entry => s.set entry.1 entry.2) settings := by
  induction entries generalizing settings with
  | nil => rfl
  | cons entry entries ih =>
      obtain ⟨⟨hid, hvalue⟩, hrest⟩ := List.forall_mem_cons.mp hrange
      have hkey := bigEndian_octetsOf 2 entry.1
      have hval := bigEndian_octetsOf 4 entry.2
      rw [Nat.mod_eq_of_lt (by omega)] at hkey hval
      rw [List.flatMap_cons, settingOctets, show setUint16 = setUint 2 from rfl, show setUint32 = setUint 4 from rfl,
        setUint_of_lt (by omega), setUint_of_lt (by omega)]
      simp only [octetsOf] at hkey hval
      simp only [octetsOf, List.cons_append, List.nil_append, readSettings, hkey, hval, ih hrest, List.foldl_cons]

theorem get_foldl_set {target : SettingsMap} {entries : List (Nat × Nat)}
    (hagree : ∀ entry ∈ entries, target.get entry.1 = some entry.2) (settings : SettingsMap) (k : Nat) :
    (entries.foldl (fun s entry => s.set entry.1 entry.2) settings).get k =
      if k ∈ entries.map Prod.fst then target.get k else settings.get k := by
  induction entries generalizing settings with
  | nil => simp
  | cons entry entries ih =>
      obtain ⟨hentry, hrest⟩ := List.forall_mem_cons.mp hagree
      rw [List.foldl_cons, ih hrest, SettingsMap.get_set, List.map_cons]
      by_cases hk : k = entry.1
      · subst hk
        simp [hentry]
      · simp only [List.mem_cons, hk, false_or, if_false]

variable {frame : SettingsFrame}

theorem collectSettingsEntries_agree (nibble : Nat) (hgrease : frame.grease = false) :
    ∀ entry ∈ collectSettingsEntries nibble frame, frame.settings.get entry.1 = some entry.2 := by
  intro entry hmem
  rw [collectSettingsEntries, hgrease] at hmem
  cases horder : frame.settingsOrder with
  | none =>
      rw [horder] at hmem
      exact SettingsMap.mem_iff_get.mp (by simpa using hmem)
  | some order =>
      rw [horder] at hmem
      simp only [Bool.false_eq_true, if_false, List.nil_append, List.mem_append, List.mem_filterMap, List.mem_filter] at hmem
      rcases hmem with ⟨id, -, hid⟩ | ⟨hentry, -⟩
      · obtain ⟨value, hvalue, rfl⟩ := Option.map_eq_some_iff.mp hid
        exact hvalue
      · exact SettingsMap.mem_iff_get.mp hentry

theorem collectSettingsEntries_complete (nibble : Nat) {entry : Nat × Nat} (hmem : entry ∈ frame.settings.entries) :
    entry ∈ collectSettingsEntries nibble frame := by
  rw [collectSettingsEntries]
  cases frame.settingsOrder with
  | none => exact List.mem_append_right _ hmem
  | some order =>
      by_cases hlisted : entry.1 ∈ order
      · apply List.mem_append_left
        apply List.mem_append_right
        have hget := SettingsMap.mem_iff_get.mp hmem
        exact List.mem_filterMap.mpr ⟨entry.1, hlisted, by rw [hget]; rfl⟩
      · exact List.mem_append_right _ (List.mem_filter.mpr ⟨hmem, by simpa using hlisted⟩)

theorem foldl_collectSettingsEntries (nibble : Nat) (hgrease : frame.grease = false) :
    (collectSettingsEntries nibble frame).foldl (fun s entry => s.set entry.1 entry.2) .empty = frame.settings := by
  apply SettingsMap.ext_get
  intro k
  rw [get_foldl_set (collectSettingsEntries_agree nibble hgrease)]
  split
  · rfl
  · rename_i hunwritten
    cases hget : frame.settings.get k with
    | none => rfl
    | some value =>
        have hentry : (k, value) ∈ frame.settings.entries := SettingsMap.mem_iff_get.mpr hget
        exact absurd (List.mem_map_of_mem (collectSettingsEntries_complete nibble hentry)) hunwritten

theorem listed_keys (settings : SettingsMap) (order : List Nat) :
    (order.filterMap fun id => (settings.get id).map (id, ·)).map Prod.fst = order.filter fun id => (settings.get id).isSome := by
  induction order with
  | nil => rfl
  | cons id order ih => cases hget : settings.get id <;> simp [hget, ih]

/-- No setting is written twice when the order lists none twice, so their number is that of the ids. -/
theorem collectSettingsEntries_length (nibble : Nat) (hgrease : frame.grease = false)
    (hids : ∀ entry ∈ frame.settings.entries, entry.1 < 2 ^ 16) (horder : ∀ order ∈ frame.settingsOrder, order.Nodup) :
    (collectSettingsEntries nibble frame).length ≤ 2 ^ 16 := by
  have hkeys : (frame.settings.entries.map Prod.fst).Nodup := frame.settings.ascending.imp Nat.ne_of_lt
  have hnodup : ((collectSettingsEntries nibble frame).map Prod.fst).Nodup := by
    rw [collectSettingsEntries, hgrease]
    cases hlisted : frame.settingsOrder with
    | none => exact hkeys
    | some order =>
        simp only [Bool.false_eq_true, if_false, List.nil_append, List.map_append, listed_keys]
        apply List.nodup_append.mpr
        refine ⟨(horder order hlisted).filter _, hkeys.sublist (List.filter_sublist.map _), ?_⟩
        rintro k hk k' hk' rfl
        obtain ⟨entry, hentry, rfl⟩ := List.mem_map.mp hk'
        exact (of_decide_eq_true (List.mem_filter.mp hentry).2) (List.mem_of_mem_filter hk)
  have hsubset : (collectSettingsEntries nibble frame).map Prod.fst ⊆ List.range (2 ^ 16) := by
    intro k hk
    obtain ⟨entry, hentry, rfl⟩ := List.mem_map.mp hk
    have hget := collectSettingsEntries_agree nibble hgrease entry hentry
    exact List.mem_range.mpr (hids entry (SettingsMap.mem_iff_get.mpr hget))
  have hlength := (List.subperm_of_subset hnodup hsubset).length_le
  rwa [List.length_map, List.length_range] at hlength

/-! ### The round trip -/

/-- Fields that fit the wire, and booleans that say what the flags say. The promised stream of a
PUSH_PROMISE is not written at all. -/
def Frame.FieldsInRange : Frame → Prop
  | .data frame => frame.payload.length < 2 ^ 24
  | .headers frame =>
      frame.payload.length < 2 ^ 24 ∧ (frame.endHeaders = true ↔ frame.flags &&& 0x4 ≠ 0) ∧
        (frame.endStream = true ↔ frame.flags &&& 0x1 ≠ 0) ∧ (frame.padded = true ↔ frame.flags &&& 0x8 ≠ 0)
  | .priority frame => frame.streamDependency < 2 ^ 31 ∧ frame.weight < 2 ^ 8
  | .rstStream frame => frame.errorCode < 2 ^ 32
  | .settings frame =>
      frame.streamId = 0 ∧ (frame.ack = true ↔ frame.flags &&& 0x1 ≠ 0) ∧
        (frame.ack = true → frame.settings = .empty) ∧ frame.grease = false ∧
        (∀ entry ∈ frame.settings.entries, entry.1 < 2 ^ 16 ∧ entry.2 < 2 ^ 32) ∧
        ∀ order ∈ frame.settingsOrder, order.Nodup
  | .pushPromise _ => False
  | .ping frame => frame.streamId = 0 ∧ (frame.ack = true ↔ frame.flags &&& 0x1 ≠ 0) ∧ frame.opaqueData < 2 ^ 64
  | .goaway frame =>
      frame.streamId = 0 ∧ frame.lastStreamId < 2 ^ 31 ∧ frame.errorCode < 2 ^ 32 ∧ 8 + frame.debugData.length < 2 ^ 24
  | .windowUpdate frame => 0 ≤ frame.windowSizeIncrement ∧ frame.windowSizeIncrement < 2 ^ 31
  | .continuation frame => frame.payload.length < 2 ^ 24 ∧ (frame.endHeaders = true ↔ frame.flags &&& 0x4 ≠ 0)

def Frame.InWireRange (frame : Frame) : Prop := frame.flags < 2 ^ 8 ∧ frame.streamId < 2 ^ 31 ∧ frame.FieldsInRange

/-- The frame without the order its settings are written in, which a parsed frame does not have. -/
def Frame.unordered : Frame → Frame
  | .settings frame => .settings { frame with settingsOrder := none }
  | frame => frame

theorem settingOctets_length (entries : List (Nat × Nat)) : (entries.flatMap settingOctets).length = 6 * entries.length := by
  induction entries with
  | nil => rfl
  | cons entry entries ih =>
      have hentry : (settingOctets entry).length = 6 := by
        rw [settingOctets, List.length_append]
        rfl
      rw [List.flatMap_cons, List.length_append, ih, hentry, List.length_cons]
      ring

theorem serializePayload_length (nibble : Nat) {frame : Frame} (hfields : frame.FieldsInRange) :
    (serializePayload nibble frame).length < 2 ^ 24 := by
  cases frame with
  | data frame => exact hfields
  | headers frame => exact hfields.1
  | priority frame => simp [serializePayload, setUint32, setUint8]
  | rstStream frame => simp [serializePayload, setUint32]
  | settings frame =>
      obtain ⟨-, -, -, hgrease, hentries, horder⟩ := hfields
      have hcount := collectSettingsEntries_length nibble hgrease (fun entry h => (hentries entry h).1) horder
      have hlength := settingOctets_length (collectSettingsEntries nibble frame)
      change (if frame.ack then [] else (collectSettingsEntries nibble frame).flatMap settingOctets).length < 2 ^ 24
      split
      · decide
      · omega
  | pushPromise frame => exact hfields.elim
  | ping frame => simp [serializePayload, setBigUint64]
  | goaway frame =>
      have hdebug := hfields.2.2.2
      simp only [serializePayload, setUint32, List.length_append, setUint_length]
      omega
  | windowUpdate frame => simp [serializePayload, setUint32]
  | continuation frame => exact hfields.1

theorem flag_eq {flag : Bool} {p : Prop} [Decidable p] (h : flag = true ↔ p) : decide p = flag := by
  rw [Bool.eq_iff_iff, decide_eq_true_iff, h]

theorem decodeFrame_headers {frame : HeadersFrame} (hendHeaders : frame.endHeaders = true ↔ frame.flags &&& 0x4 ≠ 0)
    (hendStream : frame.endStream = true ↔ frame.flags &&& 0x1 ≠ 0)
    (hpadded : frame.padded = true ↔ frame.flags &&& 0x8 ≠ 0) :
    decodeFrame 0x1 frame.flags frame.streamId frame.payload = .ok (.headers frame) := by
  rw [decodeFrame, show validateFrameType 0x1 = some .headers from rfl]
  dsimp only
  rw [flag_eq hendHeaders, flag_eq hendStream, flag_eq hpadded]

theorem decodeFrame_continuation {frame : ContinuationFrame}
    (hendHeaders : frame.endHeaders = true ↔ frame.flags &&& 0x4 ≠ 0) :
    decodeFrame 0x9 frame.flags frame.streamId frame.payload = .ok (.continuation frame) := by
  rw [decodeFrame, show validateFrameType 0x9 = some .continuation from rfl]
  dsimp only
  rw [flag_eq hendHeaders]

theorem decodeFrame_priority {frame : PriorityFrame} (hdependency : frame.streamDependency < 2 ^ 31)
    (hweight : frame.weight < 2 ^ 8) :
    decodeFrame 0x2 frame.flags frame.streamId
        (octetsOf 4 (2 ^ 31 * frame.exclusive.toNat + frame.streamDependency) ++ octetsOf 1 frame.weight) =
      .ok (.priority frame) := by
  have hread : getUint32 (octetsOf 4 (2 ^ 31 * frame.exclusive.toNat + frame.streamDependency) ++ octetsOf 1 frame.weight) 0 =
      .ok (2 ^ 31 * frame.exclusive.toNat + frame.streamDependency) :=
    getUint_first (exclusive_word frame.exclusive hdependency) _
  have hlow : (2 ^ 31 * frame.exclusive.toNat + frame.streamDependency) &&& 0x7fffffff = frame.streamDependency := by
    rw [and_low31, Nat.mul_add_mod, Nat.mod_eq_of_lt hdependency]
  have hoctet : ((octetsOf 4 (2 ^ 31 * frame.exclusive.toNat + frame.streamDependency) ++ octetsOf 1 frame.weight)[4]?.map
      UInt8.toNat).getD 0 = frame.weight := by
    rw [List.getElem?_append_right (by simp), octetsOf_length]
    simp [octetsOf]
    omega
  rw [decodeFrame, show validateFrameType 0x2 = some .priority from rfl]
  dsimp only
  rw [hread]
  simp only [bind, Except.bind, pure, Except.pure, exclusive_bit frame.exclusive hdependency, hlow, hoctet]

theorem decodeFrame_rstStream {frame : RstStreamFrame} (hcode : frame.errorCode < 2 ^ 32) :
    decodeFrame 0x3 frame.flags frame.streamId (octetsOf 4 frame.errorCode) = .ok (.rstStream frame) := by
  have hread : getUint32 (octetsOf 4 frame.errorCode) 0 = .ok frame.errorCode := getUint_only hcode
  rw [decodeFrame, show validateFrameType 0x3 = some .rstStream from rfl]
  dsimp only
  rw [hread]
  rfl

theorem decodeFrame_ping {frame : PingFrame} (hstream : frame.streamId = 0)
    (hack : frame.ack = true ↔ frame.flags &&& 0x1 ≠ 0) (hdata : frame.opaqueData < 2 ^ 64) :
    decodeFrame 0x6 frame.flags frame.streamId (octetsOf 8 frame.opaqueData) = .ok (.ping frame) := by
  have hread : getBigUint64 (octetsOf 8 frame.opaqueData) 0 = .ok frame.opaqueData := getUint_only hdata
  rw [decodeFrame, show validateFrameType 0x6 = some .ping from rfl]
  dsimp only
  rw [hread, flag_eq hack, ← hstream]
  rfl

theorem decodeFrame_goaway {frame : GoawayFrame} (hstream : frame.streamId = 0) (hlast : frame.lastStreamId < 2 ^ 31)
    (hcode : frame.errorCode < 2 ^ 32) :
    decodeFrame 0x7 frame.flags frame.streamId
        (octetsOf 4 frame.lastStreamId ++ octetsOf 4 frame.errorCode ++ frame.debugData) = .ok (.goaway frame) := by
  have hword : frame.lastStreamId < 256 ^ 4 := hlast.trans (by norm_num)
  have hfirst : getUint32 (octetsOf 4 frame.lastStreamId ++ octetsOf 4 frame.errorCode ++ frame.debugData) 0 =
      .ok frame.lastStreamId := by
    rw [List.append_assoc]
    exact getUint_first hword _
  have hsecond : getUint32 (octetsOf 4 frame.lastStreamId ++ octetsOf 4 frame.errorCode ++ frame.debugData) 4 =
      .ok frame.errorCode := getUint_octetsOf hcode (octetsOf 4 frame.lastStreamId) frame.debugData
  have hrest : (octetsOf 4 frame.lastStreamId ++ octetsOf 4 frame.errorCode ++ frame.debugData).drop 8 = frame.debugData :=
    List.drop_left' (by simp)
  rw [decodeFrame, show validateFrameType 0x7 = some .goaway from rfl]
  dsimp only
  rw [hfirst, hsecond, hrest]
  simp only [bind, Except.bind, pure, Except.pure, and_low31, Nat.mod_eq_of_lt hlast, ← hstream]

theorem decodeFrame_windowUpdate (flags : Nat) (streamId : StreamId) {increment : Nat} (hincrement : increment < 2 ^ 31) :
    decodeFrame 0x8 flags streamId (octetsOf 4 increment) =
      .ok (.windowUpdate { flags, streamId, windowSizeIncrement := increment }) := by
  have hread : getUint32 (octetsOf 4 increment) 0 = .ok increment := getUint_only (by omega)
  rw [decodeFrame, show validateFrameType 0x8 = some .windowUpdate from rfl]
  dsimp only
  rw [hread]
  simp only [bind, Except.bind, pure, Except.pure, and_low31, Nat.mod_eq_of_lt hincrement]

theorem decodeFrame_settings (nibble : Nat) {frame : SettingsFrame} (hfields : (Frame.settings frame).FieldsInRange) :
    decodeFrame 0x4 frame.flags frame.streamId (serializePayload nibble (.settings frame)) =
      .ok (Frame.settings frame).unordered := by
  obtain ⟨hstream, hack, hempty, hgrease, hentries, -⟩ := hfields
  have hread : readSettings .empty (serializePayload nibble (.settings frame)) = frame.settings := by
    change readSettings .empty (if frame.ack then [] else (collectSettingsEntries nibble frame).flatMap settingOctets) = _
    split
    · rename_i hempty'
      exact (hempty hempty').symm
    · rw [readSettings_flatMap, foldl_collectSettingsEntries nibble hgrease]
      intro entry hentry
      exact hentries entry (SettingsMap.mem_iff_get.mpr (collectSettingsEntries_agree nibble hgrease entry hentry))
  rw [decodeFrame, show validateFrameType 0x4 = some .settings from rfl]
  dsimp only
  rw [flag_eq hack, hread, ← hstream, Frame.unordered, hgrease]

/-- A frame is decoded from its serialized payload and its flags. -/
theorem decodeFrame_serializePayload (nibble : Nat) {frame : Frame} (hfields : frame.FieldsInRange) :
    decodeFrame frame.type.value frame.flags frame.streamId (serializePayload nibble frame) = .ok frame.unordered := by
  cases frame with
  | data frame => rfl
  | headers frame =>
      obtain ⟨-, hendHeaders, hendStream, hpadded⟩ := hfields
      exact decodeFrame_headers hendHeaders hendStream hpadded
  | priority frame =>
      obtain ⟨hdependency, hweight⟩ := hfields
      rw [serializePayload, setUint32_exclusive frame.exclusive hdependency, setUint8_low8]
      exact decodeFrame_priority hdependency hweight
  | rstStream frame =>
      rw [serializePayload, setUint32, setUint_of_lt hfields]
      exact decodeFrame_rstStream hfields
  | settings frame => exact decodeFrame_settings nibble hfields
  | pushPromise frame => exact hfields.elim
  | ping frame =>
      obtain ⟨hstream, hack, hdata⟩ := hfields
      rw [serializePayload, setBigUint64, setUint_of_lt hdata]
      exact decodeFrame_ping hstream hack hdata
  | goaway frame =>
      obtain ⟨hstream, hlast, hcode, -⟩ := hfields
      rw [serializePayload, setUint32_low31 hlast, setUint32, setUint_of_lt hcode]
      exact decodeFrame_goaway hstream hlast hcode
  | windowUpdate frame =>
      obtain ⟨flags, streamId, windowSizeIncrement⟩ := frame
      obtain ⟨hnonneg, hincrement⟩ := hfields
      obtain ⟨increment, rfl⟩ := Int.eq_ofNat_of_zero_le hnonneg
      have hlt : increment < 2 ^ 31 := Int.ofNat_lt.mp hincrement
      rw [serializePayload, setUint32_low31 hlt]
      exact decodeFrame_windowUpdate flags streamId hlt
  | continuation frame => exact decodeFrame_continuation hfields.2

/-- A frame within the ranges of the wire is read back from its octets, whatever follows them. -/
theorem frame_round_trip (nibble : Nat) {frame : Frame} (hrange : frame.InWireRange) (trailing : Bytes) :
    parseFrame (serializeFrame nibble frame ++ trailing) = .ok frame.unordered := by
  obtain ⟨hflags, hstream, hfields⟩ := hrange
  have hlength := serializePayload_length nibble hfields
  rw [serializeFrame_eq nibble hflags hstream hlength, parseFrame_frameOctets frame.type.value_lt hflags hstream hlength,
    decodeFrame_serializePayload nibble hfields]

theorem frame_round_trip_exclusive :
    parseFrame (serializeFrame 0 (.priority ⟨0, 5, true, 3, 200⟩) ++ [7]) = .ok (.priority ⟨0, 5, true, 3, 200⟩) := by
  have hrange : (Frame.priority ⟨0, 5, true, 3, 200⟩).InWireRange := ⟨by decide, by decide, by decide, by decide⟩
  exact frame_round_trip 0 hrange [7]

example : serializeFrame 0 (.priority ⟨0, 5, true, 3, 200⟩) = [0, 0, 5, 2, 0, 0, 0, 0, 5, 0x80, 0, 0, 3, 200] := by
  decide

end BrowsercoreHttp2
