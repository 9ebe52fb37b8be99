import BrowsercoreHttp2.FrameLengths
import BrowsercoreHttp2.SettingsOrder

/-!
# Frames off the wire

The fields of a parsed frame are within the ranges of the wire. Writing the frame again therefore gives octets that parse to
the same frame, unless it is one that the serializer does not write in full.
-/

namespace BrowsercoreHttp2

/-! ### Fields -/

theorem bigEndian_lt (octets : Bytes) : bigEndian octets < 256 ^ octets.length := foldl_octets_lt octets

theorem getUint_lt {width n : Nat} {view : Bytes} {offset : Nat} (h : getUint width view offset = .ok n) : n < 256 ^ width := by
  rw [getUint] at h
  split at h
  · rename_i hfits
    have hlength : ((view.drop offset).take width).length = width := by
      rw [List.length_take, List.length_drop]
      omega
    have hbound := bigEndian_lt ((view.drop offset).take width)
    rw [← Except.ok.inj h]
    rwa [hlength] at hbound
  · simp at h

theorem low31_lt (n : Nat) : n &&& 0x7fffffff < 2 ^ 31 := by
  rw [and_low31]
  exact Nat.mod_lt n (by norm_num)

theorem parseFrameHeader_range {buf : Bytes} {header : FrameHeader} (h : parseFrameHeader buf = .ok header) :
    header.type < 2 ^ 8 ∧ header.flags < 2 ^ 8 ∧ header.streamId < 2 ^ 31 ∧ header.length < 2 ^ 24 := by
  unfold parseFrameHeader at h
  split at h
  · rename_i l0 l1 l2 type flags s0 s1 s2 s3 rest
    have h0 := l0.toNat_lt
    have h1 := l1.toNat_lt
    have h2 := l2.toNat_lt
    rw [← Except.ok.inj h]
    refine ⟨type.toNat_lt, flags.toNat_lt, low31_lt _, ?_⟩
    dsimp only
    rw [shift_or_shift_or]
    omega
  · simp at h

/-- The settings that have been read fit their fields. -/
theorem readSettings_range {payload : Bytes} {settings : SettingsMap}
    (h : ∀ entry ∈ settings.entries, entry.1 < 2 ^ 16 ∧ entry.2 < 2 ^ 32) :
    ∀ entry ∈ (readSettings settings payload).entries, entry.1 < 2 ^ 16 ∧ entry.2 < 2 ^ 32 := by
  induction payload using settingPairs.induct generalizing settings with
  | case1 i0 i1 v0 v1 v2 v3 rest ih =>
      have hkey : bigEndian [i0, i1] < 2 ^ 16 := (bigEndian_lt [i0, i1]).trans_eq (by norm_num)
      have hvalue : bigEndian [v0, v1, v2, v3] < 2 ^ 32 := (bigEndian_lt [v0, v1, v2, v3]).trans_eq (by norm_num)
      rw [readSettings]
      refine ih fun entry hentry => ?_
      rw [SettingsMap.mem_iff_get, SettingsMap.get_set] at hentry
      split at hentry
      · rename_i hid
        rw [hid, ← Option.some.inj hentry]
        exact ⟨hkey, hvalue⟩
      · exact h entry (SettingsMap.mem_iff_get.mpr hentry)
  | case2 payload hshort =>
      rw [readSettings]
      · exact h
      · exact hshort

/-! ### Frames -/

/-- A frame of which the serializer leaves something out: the promised stream of a PUSH_PROMISE, or the settings in an
acknowledgement. -/
def Frame.Lossy : Frame → Prop
  | .pushPromise _ => True
  | .settings frame => frame.ack = true ∧ frame.settings ≠ .empty
  | _ => False

/-- What a payload decodes to, by the type of its frame. -/
inductive Decodes (flags : Nat) (streamId : StreamId) (payload : Bytes) : Option FrameType → Frame → Prop
  | unknown : Decodes flags streamId payload none (.data ⟨flags, streamId, payload⟩)
  | data : Decodes flags streamId payload (some .data) (.data ⟨flags, streamId, payload⟩)
  | headers : Decodes flags streamId payload (some .headers)
      (.headers ⟨flags, streamId, flags &&& 0x4 ≠ 0, flags &&& 0x1 ≠ 0, flags &&& 0x8 ≠ 0, payload⟩)
  | priority (depRaw : Nat) (hread : getUint32 payload 0 = .ok depRaw) : Decodes flags streamId payload (some .priority)
      (.priority ⟨flags, streamId, depRaw &&& 0x80000000 ≠ 0, depRaw &&& 0x7fffffff, (payload[4]?.map UInt8.toNat).getD 0⟩)
  | rstStream (errorCode : Nat) (hread : getUint32 payload 0 = .ok errorCode) :
      Decodes flags streamId payload (some .rstStream) (.rstStream ⟨flags, streamId, errorCode⟩)
  | settings : Decodes flags streamId payload (some .settings)
      (.settings ⟨flags, 0, flags &&& 0x1 ≠ 0, readSettings .empty payload, none, false⟩)
  | pushPromise (promisedRaw : Nat) (hread : getUint32 payload 0 = .ok promisedRaw) : Decodes flags streamId payload (some .pushPromise)
      (.pushPromise ⟨flags, streamId, flags &&& 0x4 ≠ 0, flags &&& 0x8 ≠ 0, promisedRaw &&& 0x7fffffff, payload.drop 4⟩)
  | ping (opaqueData : Nat) (hread : getBigUint64 payload 0 = .ok opaqueData) :
      Decodes flags streamId payload (some .ping) (.ping ⟨flags, 0, flags &&& 0x1 ≠ 0, opaqueData⟩)
  | goaway (lastStreamId errorCode : Nat) (hread : getUint32 payload 0 = .ok lastStreamId) (hcode : getUint32 payload 4 = .ok errorCode) :
      Decodes flags streamId payload (some .goaway)
        (.goaway ⟨flags, 0, lastStreamId &&& 0x7fffffff, errorCode, payload.drop 8⟩)
  | windowUpdate (increment : Nat) (hread : getUint32 payload 0 = .ok increment) : Decodes flags streamId payload (some .windowUpdate)
      (.windowUpdate ⟨flags, streamId, (increment &&& 0x7fffffff : Nat)⟩)
  | continuation : Decodes flags streamId payload (some .continuation)
      (.continuation ⟨flags, streamId, flags &&& 0x4 ≠ 0, payload⟩)

section Decoded

variable {type flags : Nat} {streamId : StreamId} {payload : Bytes} {frame : Frame}

theorem bind_eq_ok {α β : Type} {read : Except JsError α} {make : α → Except JsError β} {b : β} (h : read >>= make = .ok b) :
    ∃ a, read = .ok a ∧ make a = .ok b := by
  cases read with
  | error e => exact absurd h (by simp [bind, Except.bind])
  | ok a => exact ⟨a, rfl, h⟩

theorem decodeFrame_decodes (h : decodeFrame type flags streamId payload = .ok frame) :
    Decodes flags streamId payload (validateFrameType type) frame := by
  rw [decodeFrame] at h
  cases htype : validateFrameType type with
  | none =>
      rw [htype] at h
      exact Except.ok.inj h ▸ .unknown
  | some type =>
      rw [htype] at h
      cases type with
      | data => exact Except.ok.inj h ▸ .data
      | headers => exact Except.ok.inj h ▸ .headers
      | settings => exact Except.ok.inj h ▸ .settings
      | continuation => exact Except.ok.inj h ▸ .continuation
      | priority =>
          obtain ⟨n, hread, hframe⟩ := bind_eq_ok h
          exact Except.ok.inj hframe ▸ .priority n hread
      | rstStream =>
          obtain ⟨n, hread, hframe⟩ := bind_eq_ok h
          exact Except.ok.inj hframe ▸ .rstStream n hread
      | pushPromise =>
          obtain ⟨n, hread, hframe⟩ := bind_eq_ok h
          exact Except.ok.inj hframe ▸ .pushPromise n hread
      | ping =>
          obtain ⟨n, hread, hframe⟩ := bind_eq_ok h
          exact Except.ok.inj hframe ▸ .ping n hread
      | goaway =>
          obtain ⟨n, hread, hrest⟩ := bind_eq_ok h
          obtain ⟨code, hcode, hframe⟩ := bind_eq_ok hrest
          exact Except.ok.inj hframe ▸ .goaway n code hread hcode
      | windowUpdate =>
          obtain ⟨n, hread, hframe⟩ := bind_eq_ok h
          exact Except.ok.inj hframe ▸ .windowUpdate n hread

variable {readType : Option FrameType}

theorem Decodes.addressed (h : Decodes flags streamId payload readType frame) :
    frame.flags = flags ∧ (frame.streamId = streamId ∨ frame.streamId = 0) := by
  cases h with
  | settings => exact ⟨rfl, .inr rfl⟩
  | ping => exact ⟨rfl, .inr rfl⟩
  | goaway => exact ⟨rfl, .inr rfl⟩
  | _ => exact ⟨rfl, .inl rfl⟩

theorem Decodes.fields (h : Decodes flags streamId payload readType frame) (hlength : payload.length < 2 ^ 24)
    (hkept : ¬ frame.Lossy) : frame.FieldsInRange := by
  have hempty : ∀ entry ∈ SettingsMap.empty.entries, entry.1 < 2 ^ 16 ∧ entry.2 < 2 ^ 32 :=
    fun _ hmem => absurd hmem List.not_mem_nil
  cases h with
  | unknown => exact hlength
  | data => exact hlength
  | headers => exact ⟨hlength, decide_eq_true_iff, decide_eq_true_iff, decide_eq_true_iff⟩
  | priority n hread =>
      refine ⟨low31_lt n, ?_⟩
      dsimp only
      cases payload[4]? with
      | none => exact Nat.two_pow_pos 8
      | some octet => exact octet.toNat_lt
  | rstStream n hread => exact getUint_lt hread
  | settings =>
      refine ⟨rfl, decide_eq_true_iff, fun hack => ?_, rfl, readSettings_range hempty, fun order horder => ?_⟩
      · by_contra hfull
        exact hkept ⟨hack, hfull⟩
      · exact absurd horder (by simp)
  | pushPromise n hread => exact absurd trivial hkept
  | ping n hread => exact ⟨rfl, decide_eq_true_iff, getUint_lt hread⟩
  | goaway n code hread hcode =>
      have hlong : 8 ≤ payload.length := by
        by_contra hshort
        exact absurd ((getUint_range (by omega)).symm.trans hcode) (by simp)
      refine ⟨rfl, low31_lt n, getUint_lt hcode, ?_⟩
      rw [List.length_drop]
      omega
  | windowUpdate n hread => exact ⟨Int.natCast_nonneg _, Int.ofNat_lt.mpr (low31_lt n)⟩
  | continuation => exact ⟨hlength, decide_eq_true_iff⟩

end Decoded

theorem parseFrame_decodes {buf : Bytes} {frame : Frame} (h : parseFrame buf = .ok frame) :
    ∃ header, parseFrameHeader buf = .ok header ∧ frameHeaderLength + header.length ≤ buf.length ∧
      Decodes header.flags header.streamId ((buf.drop frameHeaderLength).take header.length) (validateFrameType header.type) frame := by
  rcases parseFrame_truncated_or_complete buf with ⟨offset, herror⟩ | ⟨header, hheader, hcomplete⟩
  · rw [herror] at h
    simp at h
  · rw [parseFrame_complete hheader hcomplete] at h
    exact ⟨header, hheader, hcomplete, decodeFrame_decodes h⟩

theorem parseFrame_inWireRange {buf : Bytes} {frame : Frame} (h : parseFrame buf = .ok frame) (hkept : ¬ frame.Lossy) :
    frame.InWireRange := by
  obtain ⟨header, hheader, hcomplete, hdecodes⟩ := parseFrame_decodes h
  obtain ⟨-, hflags, hstream, hlength⟩ := parseFrameHeader_range hheader
  obtain ⟨hkeeps, hid⟩ := hdecodes.addressed
  refine ⟨hkeeps ▸ hflags, ?_, hdecodes.fields ((payload_length hcomplete).trans_lt hlength) hkept⟩
  rcases hid with hsame | hzero
  · rwa [hsame]
  · rw [hzero]
    exact Nat.two_pow_pos 31

theorem parseFrame_promised {buf : Bytes} {frame : PushPromiseFrame} (h : parseFrame buf = .ok (.pushPromise frame)) :
    frame.promisedStreamId < 2 ^ 31 := by
  obtain ⟨header, -, -, hdecodes⟩ := parseFrame_decodes h
  generalize validateFrameType header.type = readType at hdecodes
  cases hdecodes with
  | pushPromise n hread => exact low31_lt n

end BrowsercoreHttp2
