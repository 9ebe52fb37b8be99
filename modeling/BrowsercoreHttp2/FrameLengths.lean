import BrowsercoreHttp2.Stream.UnknownFrames

/-!
# Payload lengths

Most frame types fix the length of their payload. `parseFrame` compares the length only with what the buffer holds; a frame
is then decoded by reads at fixed offsets, so a payload that is too short for them ends in a `RangeError`, and one that is
merely wrong is accepted.
-/

namespace BrowsercoreHttp2

/-- The payload lengths that are legal for a frame. -/
def LegalLength (flags length : Nat) : FrameType → Prop
  | .priority => length = 5
  | .rstStream | .windowUpdate => length = 4
  | .ping => length = 8
  | .goaway => 8 ≤ length
  | .pushPromise => 4 ≤ length
  | .settings => if flags &&& 0x1 ≠ 0 then length = 0 else length % 6 = 0
  | .data | .headers | .continuation => True

instance (flags length : Nat) : (type : FrameType) → Decidable (LegalLength flags length type)
  | .priority => inferInstanceAs (Decidable (length = 5))
  | .rstStream | .windowUpdate => inferInstanceAs (Decidable (length = 4))
  | .ping => inferInstanceAs (Decidable (length = 8))
  | .goaway => inferInstanceAs (Decidable (8 ≤ length))
  | .pushPromise => inferInstanceAs (Decidable (4 ≤ length))
  | .settings => inferInstanceAs (Decidable (if flags &&& 0x1 ≠ 0 then length = 0 else length % 6 = 0))
  | .data | .headers | .continuation => inferInstanceAs (Decidable True)

/-- The parser fails with a `FrameParseError` or returns a frame of a length that is legal for it. -/
structure RejectsMalformed (buf : Bytes) : Prop where
  typed : ∀ e, parseFrame buf = .error e → ∃ offset, e = .http2 (.frameParse offset)
  legal : ∀ header frame, parseFrameHeader buf = .ok header → parseFrame buf = .ok frame →
    LegalLength header.flags header.length frame.type

/-- The buffer holds a whole frame of a known type, and its length is not legal. -/
def HoldsMalformed (buf : Bytes) : Prop :=
  ∃ header type, parseFrameHeader buf = .ok header ∧ frameHeaderLength + header.length ≤ buf.length ∧
    validateFrameType header.type = some type ∧ ¬ LegalLength header.flags header.length type

/-- The octets of the payload that are read without a fallback. -/
def octetsRead : FrameType → Nat
  | .priority | .rstStream | .pushPromise | .windowUpdate => 4
  | .ping | .goaway => 8
  | .data | .headers | .settings | .continuation => 0

/-! ### Decoding -/

theorem octetsRead_le {flags length : Nat} {type : FrameType} (h : LegalLength flags length type) : octetsRead type ≤ length := by
  cases type <;> simp only [LegalLength, octetsRead] at h ⊢ <;> omega

theorem getUint_ok {width offset : Nat} {view : Bytes} (h : offset + width ≤ view.length) : ∃ n, getUint width view offset = .ok n :=
  ⟨_, if_pos h⟩

theorem getUint_range {width offset : Nat} {view : Bytes} (h : view.length < offset + width) : getUint width view offset = .error .range :=
  if_neg (Nat.not_le_of_lt h)

/-- A payload that is long enough for the reads is decoded. -/
theorem decodeFrame_ok {typeByte : Nat} {type : FrameType} (htype : validateFrameType typeByte = some type) (flags : Nat)
    (streamId : StreamId) {payload : Bytes} (hlong : octetsRead type ≤ payload.length) :
    ∃ frame, decodeFrame typeByte flags streamId payload = .ok frame ∧ frame.type = type := by
  have hword : 4 ≤ payload.length → ∃ n, getUint32 payload 0 = .ok n := fun h => getUint_ok (by omega)
  rw [decodeFrame, htype]
  cases type with
  | data => exact ⟨_, rfl, rfl⟩
  | headers => exact ⟨_, rfl, rfl⟩
  | settings => exact ⟨_, rfl, rfl⟩
  | continuation => exact ⟨_, rfl, rfl⟩
  | ping =>
      obtain ⟨n, hn⟩ : ∃ n, getBigUint64 payload 0 = .ok n := getUint_ok hlong
      simp only [hn]
      exact ⟨_, rfl, rfl⟩
  | goaway =>
      obtain ⟨n, hn⟩ := hword (le_trans (by decide) hlong)
      obtain ⟨errorCode, hcode⟩ : ∃ n, getUint32 payload 4 = .ok n := getUint_ok hlong
      simp only [hn, hcode]
      exact ⟨_, rfl, rfl⟩
  | _ =>
      obtain ⟨n, hn⟩ := hword hlong
      simp only [hn]
      exact ⟨_, rfl, rfl⟩

/-- A shorter one is not, and the error is the view's. -/
theorem decodeFrame_range {typeByte : Nat} {type : FrameType} (htype : validateFrameType typeByte = some type) (flags : Nat)
    (streamId : StreamId) {payload : Bytes} (hshort : payload.length < octetsRead type) :
    decodeFrame typeByte flags streamId payload = .error .range := by
  rw [decodeFrame, htype]
  cases type with
  | ping =>
      have hread : getBigUint64 payload 0 = .error .range := getUint_range hshort
      simp only [hread]
      rfl
  | goaway =>
      have hcode : getUint32 payload 4 = .error .range := getUint_range hshort
      by_cases hword : 4 ≤ payload.length
      · obtain ⟨n, hn⟩ : ∃ n, getUint32 payload 0 = .ok n := getUint_ok (by omega)
        simp only [hn, hcode]
        rfl
      · have hread : getUint32 payload 0 = .error .range := getUint_range (by omega)
        simp only [hread]
        rfl
  | data => exact absurd hshort (Nat.not_lt_zero _)
  | headers => exact absurd hshort (Nat.not_lt_zero _)
  | settings => exact absurd hshort (Nat.not_lt_zero _)
  | continuation => exact absurd hshort (Nat.not_lt_zero _)
  | _ =>
      have hread : getUint32 payload 0 = .error .range := getUint_range hshort
      simp only [hread]
      rfl

/-! ### Parsing -/

theorem parseFrame_truncated_or_complete (buf : Bytes) :
    (∃ offset, parseFrame buf = .error (.http2 (.frameParse offset))) ∨
      ∃ header, parseFrameHeader buf = .ok header ∧ frameHeaderLength + header.length ≤ buf.length := by
  rw [parseFrame]
  cases hheader : parseFrameHeader buf with
  | error e =>
      left
      unfold parseFrameHeader at hheader
      split at hheader
      · simp at hheader
      · obtain rfl := Except.error.inj hheader
        exact ⟨0, rfl⟩
  | ok header =>
      by_cases hcomplete : frameHeaderLength + header.length ≤ buf.length
      · exact .inr ⟨header, rfl, hcomplete⟩
      · exact .inl ⟨frameHeaderLength, if_pos (Nat.lt_of_not_le hcomplete)⟩

theorem payload_length {buf : Bytes} {length : Nat} (hcomplete : frameHeaderLength + length ≤ buf.length) :
    ((buf.drop frameHeaderLength).take length).length = length := by
  apply List.length_take_of_le
  rw [List.length_drop]
  omega

theorem RejectsMalformed.not_holds {buf : Bytes} (h : RejectsMalformed buf) : ¬ HoldsMalformed buf := by
  intro hholds
  obtain ⟨header, type, hheader, hcomplete, htype, hillegal⟩ := hholds
  have hparse := parseFrame_complete hheader hcomplete
  have hlength := payload_length hcomplete
  by_cases hlong : octetsRead type ≤ header.length
  · obtain ⟨frame, hdecode, hframe⟩ := decodeFrame_ok htype header.flags header.streamId (hlong.trans_eq hlength.symm)
    have hlegal := h.legal header frame hheader (hparse.trans hdecode)
    rw [hframe] at hlegal
    exact hillegal hlegal
  · have hdecode := decodeFrame_range htype header.flags header.streamId (hlength.trans_lt (Nat.lt_of_not_le hlong))
    obtain ⟨offset, htyped⟩ := h.typed _ (hparse.trans hdecode)
    simp at htyped

/-- A whole frame of a legal length is decoded, and so is one of unknown type, to a DATA frame. -/
theorem parseFrame_wellFormed {buf : Bytes} {header : FrameHeader} (hheader : parseFrameHeader buf = .ok header)
    (hcomplete : frameHeaderLength + header.length ≤ buf.length) (hwell : ¬ HoldsMalformed buf) :
    ∃ frame, parseFrame buf = .ok frame ∧ LegalLength header.flags header.length frame.type := by
  rw [parseFrame_complete hheader hcomplete]
  cases htype : validateFrameType header.type with
  | none =>
      have hunknown := decodeFrame_unknown header.flags header.streamId ((buf.drop frameHeaderLength).take header.length)
        (validateFrameType_eq_none_iff.mp htype)
      exact ⟨_, hunknown, trivial⟩
  | some type =>
      have hlegal : LegalLength header.flags header.length type := by
        by_contra hillegal
        exact hwell ⟨header, type, hheader, hcomplete, htype, hillegal⟩
      have hlong := (octetsRead_le hlegal).trans_eq (payload_length hcomplete).symm
      obtain ⟨frame, hdecode, hframe⟩ := decodeFrame_ok htype header.flags header.streamId hlong
      exact ⟨frame, hdecode, hframe ▸ hlegal⟩

/-- For every buffer: the parser rejects what is malformed with its own error exactly when the buffer does not hold a whole
frame of a known type with an illegal length. -/
theorem parseFrame_rejects_iff (buf : Bytes) : RejectsMalformed buf ↔ ¬ HoldsMalformed buf := by
  refine ⟨RejectsMalformed.not_holds, fun hwell => ?_⟩
  apply (parseFrame_truncated_or_complete buf).elim
  · rintro ⟨offset, htruncated⟩
    refine ⟨fun e herror => ⟨offset, ?_⟩, fun header frame _ hok => ?_⟩
    · exact Except.error.inj (herror.symm.trans htruncated)
    · rw [htruncated] at hok
      simp at hok
  · rintro ⟨header, hheader, hcomplete⟩
    obtain ⟨frame, hparse, hlegal⟩ := parseFrame_wellFormed hheader hcomplete hwell
    refine ⟨fun e herror => ?_, fun header' frame' hheader' hok => ?_⟩
    · rw [hparse] at herror
      simp at herror
    · obtain rfl := Except.ok.inj (hheader.symm.trans hheader')
      obtain rfl := Except.ok.inj (hparse.symm.trans hok)
      exact hlegal

/-- An RST_STREAM frame without its error code. -/
def shortRstStream : Bytes := [0, 0, 3, 0x3, 0, 0, 0, 0, 1, 0, 0, 0]

/-- A PING frame with an octet too many. -/
def longPing : Bytes := [0, 0, 9, 0x6, 0, 0, 0, 0, 0, 0, 0, 0, 0, 0, 0, 0, 1, 2]

/-- The short frame fails with a `RangeError` and the long one is accepted. -/
theorem malformed_not_rejected :
    ¬ RejectsMalformed shortRstStream ∧ parseFrame shortRstStream = .error .range ∧
      ¬ RejectsMalformed longPing ∧ parseFrame longPing = .ok (.ping ⟨0, 0, false, 1⟩) := by
  have hshort : parseFrame shortRstStream = .error .range := by decide +kernel
  have hlong : parseFrame longPing = .ok (.ping ⟨0, 0, false, 1⟩) := by decide +kernel
  refine ⟨fun h => ?_, hshort, fun h => ?_, hlong⟩
  · obtain ⟨offset, htyped⟩ := h.typed _ hshort
    simp at htyped
  · have hlegal := h.legal ⟨0x6, 0, 0, 9⟩ _ rfl hlong
    exact absurd hlegal (by decide)

end BrowsercoreHttp2
