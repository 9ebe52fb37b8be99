import BrowsercoreHttp2.FrameRanges
import BrowsercoreHttp2.Stream.ClientIds

/-!
# Canonical frames

Different octets may parse to the same frame: the parser skips reserved bits, the stream of a connection-level frame, surplus
octets and all but the last of several values of a setting, and it hands an unknown type on as DATA. Of all octets that parse to
a frame the serializer writes one choice. These octets are described here by the fields of their header and by their payload,
without reference to the frame they parse to or to the serializer.
-/

namespace BrowsercoreHttp2

/-! ### Canonical octets -/

/-- The frames that concern the connection, whose stream the parser takes to be 0. -/
def FrameType.onConnection : FrameType → Bool
  | .settings | .ping | .goaway => true
  | _ => false

/-- Exactly the octets that the fields of the frame fill, with the reserved bits clear. -/
def CanonicalPayload (flags : Nat) (payload : Bytes) : FrameType → Prop
  | .data | .headers | .continuation => True
  | .priority => payload.length = 5
  | .rstStream => payload.length = 4
  | .settings =>
      if flags &&& 0x1 ≠ 0 then payload = []
      else payload.length % 6 = 0 ∧ ((settingPairs payload).map Prod.fst).Pairwise (· < ·)
  | .pushPromise => False
  | .ping => payload.length = 8
  | .goaway => 8 ≤ payload.length ∧ bigEndian (payload.take 4) < 2 ^ 31
  | .windowUpdate => payload.length = 4 ∧ bigEndian payload < 2 ^ 31

/-- A whole frame of a known type and nothing after it, with the reserved bit of its stream id clear. -/
structure Canonical (buf : Bytes) (header : FrameHeader) (type : FrameType) : Prop where
  parsed : parseFrameHeader buf = .ok header
  known : validateFrameType header.type = some type
  whole : buf.length = frameHeaderLength + header.length
  reserved : bigEndian (streamIdField buf) < 2 ^ 31
  connection : type.onConnection = true → header.streamId = 0
  payload : CanonicalPayload header.flags (buf.drop frameHeaderLength) type

/-! ### Reading and writing fields -/

theorem octetsOf_bigEndian {width : Nat} {octets : Bytes} (h : octets.length = width) : octetsOf width (bigEndian octets) = octets := by
  rw [← h]
  exact octetsOf_foldl octets

theorem getUint_eq {width offset n : Nat} {view : Bytes} (h : getUint width view offset = .ok n) :
    offset + width ≤ view.length ∧ bigEndian ((view.drop offset).take width) = n ∧ octetsOf width n = (view.drop offset).take width := by
  rw [getUint] at h
  split at h
  · rename_i hfits
    have hn := Except.ok.inj h
    refine ⟨hfits, hn, ?_⟩
    rw [← hn]
    apply octetsOf_bigEndian
    rw [List.length_take, List.length_drop]
    omega
  · simp at h

theorem getUint_first_eq {width n : Nat} {view : Bytes} (h : getUint width view 0 = .ok n) :
    width ≤ view.length ∧ bigEndian (view.take width) = n ∧ octetsOf width n = view.take width := by
  have hread := getUint_eq h
  rwa [Nat.zero_add, List.drop_zero] at hread

/-- A buffer is the octets of its header, the raw stream id among them, and the rest. -/
theorem octets_of_header {buf : Bytes} {header : FrameHeader} (h : parseFrameHeader buf = .ok header) :
    buf = octetsOf 3 header.length ++ octetsOf 1 header.type ++ octetsOf 1 header.flags ++ octetsOf 4 (bigEndian (streamIdField buf)) ++
        buf.drop frameHeaderLength ∧
      header.streamId = bigEndian (streamIdField buf) % 2 ^ 31 := by
  unfold parseFrameHeader at h
  split at h
  · rename_i l0 l1 l2 type flags s0 s1 s2 s3 rest
    have hlength : octetsOf 3 (bigEndian [l0, l1, l2]) = [l0, l1, l2] := octetsOf_bigEndian rfl
    have htype : octetsOf 1 (bigEndian [type]) = [type] := octetsOf_bigEndian rfl
    have hflags : octetsOf 1 (bigEndian [flags]) = [flags] := octetsOf_bigEndian rfl
    have hstream : octetsOf 4 (bigEndian [s0, s1, s2, s3]) = [s0, s1, s2, s3] := octetsOf_bigEndian rfl
    have hcount : bigEndian [l0, l1, l2] = l0.toNat <<< 16 ||| l1.toNat <<< 8 ||| l2.toNat := by
      rw [shift_or_shift_or]
      simp [bigEndian]
    have hone : ∀ octet : UInt8, bigEndian [octet] = octet.toNat := by
      intro octet
      simp [bigEndian]
    rw [hcount] at hlength
    rw [hone] at htype hflags
    obtain rfl := Except.ok.inj h
    refine ⟨?_, and_low31 _⟩
    have hfield : streamIdField (l0 :: l1 :: l2 :: type :: flags :: s0 :: s1 :: s2 :: s3 :: rest) = [s0, s1, s2, s3] := rfl
    dsimp only
    rw [hfield, hlength, htype, hflags, hstream]
    rfl
  · simp at h

theorem word_split {n : Nat} (hn : n < 2 ^ 32) : 2 ^ 31 * (decide (n &&& 0x80000000 ≠ 0)).toNat + (n &&& 0x7fffffff) = n := by
  have hbit : n &&& 0x80000000 = (n.testBit 31).toNat * 2 ^ 31 := Nat.and_two_pow n 31
  rw [and_low31, hbit, Nat.testBit_eq_decide_div_mod_eq]
  by_cases hhigh : n / 2 ^ 31 % 2 = 1
  · rw [decide_eq_true hhigh]
    simp only [Bool.toNat_true]
    norm_num
    omega
  · rw [decide_eq_false hhigh]
    simp only [Bool.toNat_false]
    norm_num
    omega

/-! ### Settings -/

theorem insertEntry_last {key : Nat} (value : Nat) {entries : List (Nat × Nat)} (h : ∀ entry ∈ entries, entry.1 < key) :
    SettingsMap.insertEntry key value entries = entries ++ [(key, value)] := by
  induction entries with
  | nil => rfl
  | cons entry entries ih =>
      obtain ⟨hentry, hrest⟩ := List.forall_mem_cons.mp h
      rw [SettingsMap.insertEntry, if_neg (Nat.not_lt_of_gt hentry), if_neg (Nat.ne_of_gt hentry), ih hrest]
      rfl

theorem entries_foldl_ascending {pairs : List (Nat × Nat)} {settings : SettingsMap}
    (h : ((settings.entries ++ pairs).map Prod.fst).Pairwise (· < ·)) :
    (pairs.foldl (fun s entry => s.set entry.1 entry.2) settings).entries = settings.entries ++ pairs := by
  induction pairs generalizing settings with
  | nil => exact (List.append_nil _).symm
  | cons pair pairs ih =>
      have hlast : (settings.set pair.1 pair.2).entries = settings.entries ++ [pair] := by
        refine insertEntry_last pair.2 fun entry hentry => ?_
        rw [List.map_append] at h
        exact (List.pairwise_append.mp h).2.2 entry.1 (List.mem_map_of_mem hentry) pair.1 List.mem_cons_self
      rw [List.foldl_cons, ih, hlast, List.append_assoc]
      · rfl
      · rwa [hlast, List.append_assoc]

theorem flatMap_settingPairs {payload : Bytes} (h : payload.length % 6 = 0) : (settingPairs payload).flatMap settingOctets = payload := by
  induction payload using settingPairs.induct with
  | case1 i0 i1 v0 v1 v2 v3 rest ih =>
      have hid : setUint 2 (bigEndian [i0, i1]) = [i0, i1] := (setUint_of_lt (bigEndian_lt [i0, i1])).trans (octetsOf_bigEndian rfl)
      have hvalue : setUint 4 (bigEndian [v0, v1, v2, v3]) = [v0, v1, v2, v3] :=
        (setUint_of_lt (bigEndian_lt [v0, v1, v2, v3])).trans (octetsOf_bigEndian rfl)
      have hrest : rest.length % 6 = 0 := by
        simp only [List.length_cons] at h
        omega
      rw [settingPairs, List.flatMap_cons, ih hrest, settingOctets, setUint16, setUint32, hid, hvalue]
      rfl
  | case2 payload hshort =>
      have hempty : payload = [] := by
        rcases payload with _ | ⟨a, _ | ⟨b, _ | ⟨c, _ | ⟨d, _ | ⟨e, _ | ⟨f, rest⟩⟩⟩⟩⟩⟩
        · rfl
        all_goals first | exact absurd rfl (hshort a b c d e f rest) | simp at h
      rw [hempty]
      rfl

theorem settings_payload_iff (payload : Bytes) :
    (readSettings .empty payload).entries.flatMap settingOctets = payload ↔
      payload.length % 6 = 0 ∧ ((settingPairs payload).map Prod.fst).Pairwise (· < ·) := by
  have hempty : ∀ entry ∈ SettingsMap.empty.entries, entry.1 < 2 ^ 16 ∧ entry.2 < 2 ^ 32 :=
    fun _ hmem => absurd hmem List.not_mem_nil
  constructor
  · intro hsame
    have hpairs : settingPairs payload = (readSettings .empty payload).entries := by
      have hread := settingPairs_flatMap (readSettings .empty payload).entries
      rw [hsame] at hread
      rw [hread]
      refine (List.map_congr_left fun entry hentry => ?_).trans (List.map_id _)
      exact wireSetting_eq_self_iff.mpr (readSettings_range hempty entry hentry)
    refine ⟨?_, hpairs ▸ (readSettings .empty payload).ascending⟩
    rw [← hsame, settingOctets_length, Nat.mul_mod_right]
  · rintro ⟨hlength, hascending⟩
    have hentries : (readSettings .empty payload).entries = settingPairs payload := by
      rw [readSettings_eq_foldl, entries_foldl_ascending hascending]
      rfl
    rw [hentries, flatMap_settingPairs hlength]

/-! ### Payloads -/

section Decoded

variable {flags : Nat} {streamId : StreamId} {payload : Bytes} {frame : Frame} {type : FrameType}

theorem Decodes.type_eq (h : Decodes flags streamId payload (some type) frame) : frame.type = type := by
  cases h <;> rfl

theorem Decodes.streamId_eq (h : Decodes flags streamId payload (some type) frame) :
    frame.streamId = if type.onConnection then 0 else streamId := by
  cases h <;> rfl

theorem take_eq_self_iff {n : Nat} {octets : Bytes} (hlong : n ≤ octets.length) : octets.take n = octets ↔ octets.length = n := by
  rw [List.take_eq_self_iff]
  omega

theorem octetsOf_low31_iff {n : Nat} (hn : n < 2 ^ 32) : octetsOf 4 (n &&& 0x7fffffff) = octetsOf 4 n ↔ n < 2 ^ 31 := by
  rw [and_low31]
  constructor
  · intro h
    have hsame := octetsOf_injective (by omega) (by omega) h
    omega
  · intro h
    rw [Nat.mod_eq_of_lt h]

/-- The serializer gives the payload back exactly if it is canonical. -/
theorem Decodes.payload_iff (h : Decodes flags streamId payload (some type) frame) (nibble : Nat) :
    serializePayload nibble frame = payload ↔ CanonicalPayload flags payload type := by
  cases h with
  | data => exact iff_of_true rfl trivial
  | headers => exact iff_of_true rfl trivial
  | continuation => exact iff_of_true rfl trivial
  | pushPromise n hread =>
      have hlong := (getUint_first_eq hread).1
      refine iff_of_false (fun hsame => ?_) not_false
      have hlength := congrArg List.length hsame
      simp only [serializePayload, List.length_drop] at hlength
      omega
  | rstStream n hread =>
      obtain ⟨hlong, -, hoctets⟩ := getUint_first_eq hread
      rw [serializePayload, setUint32, setUint_of_lt (getUint_lt hread), hoctets]
      exact take_eq_self_iff hlong
  | ping n hread =>
      obtain ⟨hlong, -, hoctets⟩ := getUint_first_eq hread
      rw [serializePayload, setBigUint64, setUint_of_lt (getUint_lt hread), hoctets]
      exact take_eq_self_iff hlong
  | windowUpdate n hread =>
      obtain ⟨hlong, hn, hoctets⟩ := getUint_first_eq hread
      have hlow := octetsOf_low31_iff (getUint_lt hread)
      rw [serializePayload, setUint32_low31 (low31_lt n)]
      constructor
      · intro hsame
        have hlength : payload.length = 4 := by rw [← hsame, octetsOf_length]
        rw [(take_eq_self_iff hlong).mpr hlength] at hn hoctets
        exact ⟨hlength, hn ▸ hlow.mp (hsame.trans hoctets.symm)⟩
      · rintro ⟨hlength, hclear⟩
        rw [(take_eq_self_iff hlong).mpr hlength] at hn hoctets
        exact (hlow.mpr (hn ▸ hclear)).trans hoctets
  | goaway n code hread hcode =>
      obtain ⟨-, hn, hoctets⟩ := getUint_first_eq hread
      obtain ⟨hlong, -, hcodeOctets⟩ := getUint_eq hcode
      have hlow := octetsOf_low31_iff (getUint_lt hread)
      have hsplit : payload.take 4 ++ (payload.drop 4).take 4 ++ payload.drop 8 = payload := by
        rw [← List.drop_drop (i := 4) (j := 4), List.append_assoc, List.take_append_drop, List.take_append_drop]
      rw [serializePayload, setUint32_low31 (low31_lt n), setUint32, setUint_of_lt (getUint_lt hcode), hcodeOctets, CanonicalPayload, hn]
      constructor
      · intro hsame
        have hfirst := List.append_cancel_right (List.append_cancel_right (hsame.trans hsplit.symm))
        exact ⟨hlong, hlow.mp (hfirst.trans hoctets.symm)⟩
      · rintro ⟨-, hclear⟩
        rw [hlow.mpr hclear, hoctets, hsplit]
  | priority n hread =>
      obtain ⟨hlong, -, hoctets⟩ := getUint_first_eq hread
      rw [serializePayload, setUint32_exclusive _ (low31_lt n), word_split (getUint_lt hread), setUint8_low8, hoctets]
      constructor
      · intro hsame
        have hlength := congrArg List.length hsame
        rw [List.length_append, List.length_take_of_le hlong, octetsOf_length] at hlength
        exact hlength.symm
      · intro hlength
        have hlast : 4 < payload.length := hlength ▸ Nat.lt_succ_self 4
        have hoctet : octetsOf 1 payload[4].toNat = [payload[4]] := by simp [octetsOf]
        have hrest : payload.drop 4 = [payload[4]] := by
          rw [List.drop_eq_getElem_cons hlast, List.drop_eq_nil_of_le hlength.le]
        rw [List.getElem?_eq_getElem hlast, Option.map_some, Option.getD_some, hoctet, ← hrest, List.take_append_drop]
  | settings =>
      rw [serializePayload, CanonicalPayload]
      by_cases hack : flags &&& 0x1 ≠ 0
      · rw [if_pos (decide_eq_true hack), if_pos hack]
        exact eq_comm
      · rw [if_neg (fun h => hack (of_decide_eq_true h)), if_neg hack]
        exact settings_payload_iff payload

theorem Decodes.serialized_length {readType : Option FrameType} (h : Decodes flags streamId payload readType frame) (nibble : Nat)
    (hlength : payload.length < 2 ^ 24) : (serializePayload nibble frame).length < 2 ^ 24 := by
  by_cases hlossy : frame.Lossy
  · cases h with
    | pushPromise n hread =>
        rw [serializePayload, List.length_drop]
        omega
    | settings =>
        rw [serializePayload, if_pos hlossy.1]
        decide
    | _ => exact absurd hlossy not_false
  · exact serializePayload_length nibble (h.fields hlength hlossy)

theorem CanonicalPayload.octetsRead_le (h : CanonicalPayload flags payload type) : octetsRead type ≤ payload.length := by
  cases type with
  | data => exact Nat.zero_le _
  | headers => exact Nat.zero_le _
  | settings => exact Nat.zero_le _
  | continuation => exact Nat.zero_le _
  | priority =>
      have hlength : payload.length = 5 := h
      rw [hlength]
      decide
  | rstStream =>
      have hlength : payload.length = 4 := h
      rw [hlength]
      decide
  | pushPromise => exact h.elim
  | ping =>
      have hlength : payload.length = 8 := h
      rw [hlength]
      decide
  | goaway => exact h.1
  | windowUpdate =>
      rw [h.1]
      decide

end Decoded

/-! ### Frames -/

theorem validateFrameType_value (type : FrameType) : validateFrameType type.value = some type := by
  cases type <;> rfl

theorem value_of_validateFrameType {n : Nat} {type : FrameType} (h : validateFrameType n = some type) : type.value = n := by
  unfold validateFrameType at h
  split at h <;> first | rw [← Option.some.inj h]; rfl | exact absurd h.symm (Option.some_ne_none _)

theorem frameOctets_inj {length type flags streamId length' type' flags' streamId' : Nat} {payload payload' : Bytes}
    (h : octetsOf 3 length ++ octetsOf 1 type ++ octetsOf 1 flags ++ octetsOf 4 streamId ++ payload =
      octetsOf 3 length' ++ octetsOf 1 type' ++ octetsOf 1 flags' ++ octetsOf 4 streamId' ++ payload') :
    octetsOf 3 length = octetsOf 3 length' ∧ octetsOf 1 type = octetsOf 1 type' ∧ octetsOf 4 streamId = octetsOf 4 streamId' ∧
      payload = payload' := by
  obtain ⟨hfields, hpayload⟩ := List.append_inj h (by simp)
  obtain ⟨hfields, hstream⟩ := List.append_inj hfields (by simp)
  obtain ⟨hfields, -⟩ := List.append_inj hfields (by simp)
  obtain ⟨hlength, htype⟩ := List.append_inj hfields (by simp)
  exact ⟨hlength, htype, hstream, hpayload⟩

theorem streamIdField_lt (buf : Bytes) : bigEndian (streamIdField buf) < 2 ^ 32 := by
  have hlength : (streamIdField buf).length ≤ 4 := List.length_take_le 4 _
  exact (bigEndian_lt _).trans_le ((Nat.pow_le_pow_right (by decide) hlength).trans_eq (by norm_num))

/-- For every buffer: it parses and the frame is serialized to the same octets exactly if it is canonical. -/
theorem serialize_parse_iff (nibble : Nat) (buf : Bytes) :
    (∃ frame, parseFrame buf = .ok frame ∧ serializeFrame nibble frame = buf) ↔ ∃ header type, Canonical buf header type := by
  constructor
  · rintro ⟨frame, hparse, hsame⟩
    obtain ⟨header, hheader, hcomplete, hdecodes⟩ := parseFrame_decodes hparse
    obtain ⟨htypeByte, hflags, hstream, hlength⟩ := parseFrameHeader_range hheader
    obtain ⟨hoctets, hstreamId⟩ := octets_of_header hheader
    have hpayload := payload_length hcomplete
    obtain ⟨hkeeps, hid⟩ := hdecodes.addressed
    have hflags' : frame.flags < 2 ^ 8 := hkeeps ▸ hflags
    have hstream' : frame.streamId < 2 ^ 31 := by
      rcases hid with hid | hid
      · rwa [hid]
      · rw [hid]
        exact Nat.two_pow_pos 31
    have hwritten := hdecodes.serialized_length nibble (hpayload.trans_lt hlength)
    rw [serializeFrame_eq nibble hflags' hstream' hwritten, frameOctets, hoctets] at hsame
    obtain ⟨hcount, htype, hraw, hrest⟩ := frameOctets_inj hsame
    have hcount := octetsOf_injective (by omega) (by omega) hcount
    have htype := octetsOf_injective frame.type.value_lt (by omega) htype
    have hraw := octetsOf_injective (hstream'.trans (by norm_num)) (streamIdField_lt buf) hraw
    have hwhole : buf.length = frameHeaderLength + header.length := by
      rw [← hcount, hrest, List.length_drop]
      omega
    have hall : (buf.drop frameHeaderLength).take header.length = buf.drop frameHeaderLength := by
      apply List.take_of_length_le
      rw [List.length_drop, hwhole]
      omega
    have hknown : validateFrameType header.type = some frame.type := htype ▸ validateFrameType_value frame.type
    rw [hall, hknown] at hdecodes
    refine ⟨header, frame.type, hheader, hknown, hwhole, hraw ▸ hstream', fun hconnection => ?_, ?_⟩
    · have hzero : frame.streamId = 0 := hdecodes.streamId_eq.trans (if_pos hconnection)
      rw [hstreamId, ← hraw, hzero, Nat.zero_mod]
    · exact (hdecodes.payload_iff nibble).mp hrest
  · rintro ⟨header, type, hcanonical⟩
    obtain ⟨htypeByte, hflags, hstream, hlength⟩ := parseFrameHeader_range hcanonical.parsed
    obtain ⟨hoctets, hstreamId⟩ := octets_of_header hcanonical.parsed
    have hpayload : (buf.drop frameHeaderLength).take header.length = buf.drop frameHeaderLength := by
      apply List.take_of_length_le
      rw [List.length_drop, hcanonical.whole]
      omega
    obtain ⟨frame, hdecode, htype⟩ := decodeFrame_ok hcanonical.known header.flags header.streamId hcanonical.payload.octetsRead_le
    have hparse : parseFrame buf = .ok frame := by
      rw [parseFrame_complete hcanonical.parsed hcanonical.whole.ge, hpayload]
      exact hdecode
    have hdecodes := decodeFrame_decodes hdecode
    rw [hcanonical.known] at hdecodes
    have hraw : frame.streamId = bigEndian (streamIdField buf) := by
      rw [Nat.mod_eq_of_lt hcanonical.reserved] at hstreamId
      rw [hdecodes.streamId_eq, ← hstreamId]
      split
      · rename_i hconnection
        exact (hcanonical.connection hconnection).symm
      · rfl
    have hcount : (buf.drop frameHeaderLength).length = header.length := by
      rw [List.length_drop, hcanonical.whole, Nat.add_sub_cancel_left]
    have hwritten : serializePayload nibble frame = buf.drop frameHeaderLength := (hdecodes.payload_iff nibble).mpr hcanonical.payload
    refine ⟨frame, hparse, ?_⟩
    rw [serializeFrame_eq nibble (hdecodes.addressed.1 ▸ hflags) (hraw ▸ hcanonical.reserved) (by rw [hwritten, hcount]; exact hlength),
      frameOctets, hwritten, hcount, hdecodes.type_eq, value_of_validateFrameType hcanonical.known, hdecodes.addressed.1, hraw]
    exact hoctets.symm

end BrowsercoreHttp2
