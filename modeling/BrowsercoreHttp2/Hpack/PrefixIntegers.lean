import Mathlib.Data.Nat.Digits.Defs
import BrowsercoreHttp2.Hpack.Peer

/-!
# Prefix integers

Up to `2^53 - 1` an integer reads back as it was written, whatever flags share its first octet and whatever stands
around it. The peer can write more: nothing ends the run of its continuation octets, and what they spell is added up
in a JavaScript number.
-/

namespace BrowsercoreHttp2

/-- An encoded integer reads back, with any flags above its prefix and any octets around it. -/
theorem decodeInteger_encodeInteger (before rest : Bytes) {prefixBits value : Nat} {flag : UInt8} (hwidth : prefixBits ≤ 8)
    (hvalue : value ≤ 2 ^ 53 - 1) (hflag : flag.toNat &&& (2 ^ prefixBits - 1) = 0) :
    ∃ octets, encodeInteger value prefixBits = .ok octets ∧
      decodeInteger (before ++ setFlag flag octets ++ rest) before.length prefixBits =
        .ok ⟨.finite value, before.length + octets.length⟩ := by
  have hexact : value < Js.exactBound := by
    rw [Js.exactBound]
    omega
  have hlow : ∀ f < 2 ^ prefixBits, (f ||| flag.toNat) &&& (2 ^ prefixBits - 1) = f := by
    intro f hf
    rw [Nat.and_or_distrib_right, hflag, Nat.or_zero, Nat.and_two_pow_sub_one_of_lt_two_pow hf]
  obtain ⟨marked, more, hset, -, hread⟩ := decodeInteger_setFlag before rest hwidth hexact flag hlow
  have hlength : (setFlag flag (integerOctets value prefixBits)).length = (integerOctets value prefixBits).length := by
    cases integerOctets value prefixBits with
    | nil => rfl
    | cons first more => rfl
  refine ⟨integerOctets value prefixBits, encodeInteger_natCast value prefixBits, ?_⟩
  rw [hread, hlength]

/-- The integer 1337 behind three flag bits, between two other octets. -/
theorem decodeInteger_encodeInteger_1337 :
    ∃ octets, encodeInteger (1337 : Nat) 5 = .ok octets ∧
      decodeInteger ([0xff] ++ setFlag 0xe0 octets ++ [0x00]) 1 5 = .ok ⟨.finite 1337, 1 + octets.length⟩ :=
  decodeInteger_encodeInteger [0xff] [0x00] (show 5 ≤ 8 by decide) (show 1337 ≤ 2 ^ 53 - 1 by decide)
    (show (0xe0 : UInt8).toNat &&& (2 ^ 5 - 1) = 0 by decide)

/-! ### Exact numbers -/

namespace JsNat

/-- The number is an integer below `2^53`. -/
def Exact (v : JsNat) : Prop := ∃ n < Js.exactBound, v = .finite n

theorem exact_iff {v : JsNat} : v.Exact ↔ ∃ n ≤ 2 ^ 53 - 1, v = .finite n := by
  refine exists_congr fun n => and_congr_left fun _ => ?_
  rw [Js.exactBound]
  omega

theorem exact_finite_iff (n : Nat) : (JsNat.finite n).Exact ↔ n < Js.exactBound := by
  refine Iff.intro (fun h => ?_) fun h => ⟨n, h, rfl⟩
  obtain ⟨m, hm, hsame⟩ := h
  rwa [JsNat.finite.inj hsame]

theorem not_exact_infinity : ¬ JsNat.infinity.Exact := by
  intro h
  obtain ⟨m, -, hsame⟩ := h
  exact JsNat.noConfusion hsame

theorem not_exact_nan : ¬ JsNat.nan.Exact := by
  intro h
  obtain ⟨m, -, hsame⟩ := h
  exact JsNat.noConfusion hsame

theorem exactBound_le_roundInteger {n : Nat} (h : Js.exactBound ≤ n) : Js.exactBound ≤ Js.roundInteger n := by
  rw [Js.roundInteger, if_neg (Nat.not_lt.mpr h)]
  rw [Js.exactBound] at h ⊢
  have hn : n ≠ 0 := by omega
  have hlog : 53 ≤ n.log2 := (Nat.le_log2 hn).mpr h
  have hunit : 2 ^ 52 * 2 ^ (n.log2 - 52) = 2 ^ n.log2 := by
    rw [← Nat.pow_add, Nat.add_sub_cancel' (by omega)]
  have hquotient : 2 ^ 52 ≤ n / 2 ^ (n.log2 - 52) := by
    rw [Nat.le_div_iff_mul_le (Nat.two_pow_pos _), hunit]
    exact Nat.log2_self_le hn
  have hrounded : n / 2 ^ (n.log2 - 52) ≤ Js.roundHalfEven n (2 ^ (n.log2 - 52)) := by
    rw [Js.roundHalfEven]
    split <;> omega
  calc 2 ^ 53 ≤ 2 ^ n.log2 := Nat.pow_le_pow_right (by decide) hlog
    _ = 2 ^ 52 * 2 ^ (n.log2 - 52) := hunit.symm
    _ ≤ Js.roundHalfEven n (2 ^ (n.log2 - 52)) * 2 ^ (n.log2 - 52) := Nat.mul_le_mul_right _ (hquotient.trans hrounded)

theorem exact_ofNat_iff (n : Nat) : (ofNat n).Exact ↔ n < Js.exactBound := by
  refine Iff.intro (fun h => ?_) fun h => ⟨n, h, ofNat_of_lt h⟩
  by_contra hlarge
  have hrounded := exactBound_le_roundInteger (Nat.not_lt.mp hlarge)
  rw [ofNat] at h
  split at h
  · exact absurd ((exact_finite_iff _).mp h) (Nat.not_lt.mpr hrounded)
  · exact not_exact_infinity h

theorem exact_of_add {v w : JsNat} (h : (v.add w).Exact) : v.Exact ∧ w.Exact := by
  cases v with
  | nan => exact absurd h not_exact_nan
  | infinity => cases w <;> exact absurd h (by first | exact not_exact_nan | exact not_exact_infinity)
  | finite n =>
      cases w with
      | nan => exact absurd h not_exact_nan
      | infinity => exact absurd h not_exact_infinity
      | finite m =>
          have hsum := (exact_ofNat_iff (n + m)).mp h
          rw [exact_finite_iff, exact_finite_iff]
          omega

theorem not_exact_mul_twoPow {g shift : Nat} (h : 1024 ≤ shift) : ¬ (mul (.finite g) (twoPow shift)).Exact := by
  rw [twoPow, if_neg (by omega)]
  cases g with
  | zero => exact not_exact_nan
  | succ g => exact not_exact_infinity

theorem exact_mul_twoPow_iff {g shift : Nat} (h : shift < 1024) :
    (mul (.finite g) (twoPow shift)).Exact ↔ g * 2 ^ shift < Js.exactBound := by
  rw [twoPow_of_lt h]
  exact exact_ofNat_iff _

end JsNat

/-! ### The run of continuation octets -/

/-- The seven-bit groups of the continuation octets that some octets begin with, if these come to an end. -/
def continuationGroups : Bytes → Option (List Nat)
  | [] => none
  | octet :: rest =>
      if octet.toNat &&& 0x80 = 0 then some [octet.toNat &&& 0x7f]
      else (continuationGroups rest).map ((octet.toNat &&& 0x7f) :: ·)

theorem continuationGroups_ne_nil {octets : Bytes} {groups : List Nat} (h : continuationGroups octets = some groups) :
    groups ≠ [] := by
  cases octets with
  | nil => exact absurd h.symm (Option.some_ne_none _)
  | cons octet rest =>
      rw [continuationGroups] at h
      split at h
      · exact Option.some.inj h ▸ List.cons_ne_nil _ _
      · obtain ⟨groups', -, rfl⟩ := Option.map_eq_some_iff.mp h
        exact List.cons_ne_nil _ _

/-- The number the decoder adds up from groups. -/
def accumulate (value : JsNat) (shift : Nat) : List Nat → JsNat
  | [] => value
  | group :: groups => accumulate (value.add (.mul (.finite group) (.twoPow shift))) (shift + 7) groups

theorem decodeContinuation_eq (buf : Bytes) (position : Nat) (value : JsNat) (shift : Nat) :
    (decodeContinuation buf position value shift).toOption.map DecodedInteger.value =
      (continuationGroups (buf.drop position)).map (accumulate value shift) := by
  fun_induction decodeContinuation buf position value shift with
  | case1 position value shift hlt octet value' hlast =>
      rw [List.drop_eq_getElem_cons hlt, continuationGroups, if_pos hlast]
      rfl
  | case2 position value shift hlt octet value' hmore ih =>
      rw [ih, List.drop_eq_getElem_cons hlt, continuationGroups, if_neg hmore, Option.map_map]
      rfl
  | case3 position value shift hend =>
      rw [List.drop_eq_nil_of_le (Nat.not_lt.mp hend)]
      rfl

theorem not_exact_accumulate {value : JsNat} (h : ¬ value.Exact) (shift : Nat) (groups : List Nat) :
    ¬ (accumulate value shift groups).Exact := by
  induction groups generalizing value shift with
  | nil => exact h
  | cons group groups ih => exact ih (fun hsum => h (JsNat.exact_of_add hsum).1) (shift + 7)

/-- The sum is exact when the groups spell a number below `2^53` and none of them has an infinite weight. -/
theorem exact_accumulate_iff (value shift : Nat) (groups : List Nat) :
    (accumulate (.finite value) shift groups).Exact ↔
      value + Nat.ofDigits 128 groups * 2 ^ shift < Js.exactBound ∧ (groups = [] ∨ shift + 7 * groups.length < 1031) := by
  induction groups generalizing value shift with
  | nil =>
      rw [accumulate, JsNat.exact_finite_iff, Nat.ofDigits_nil, Nat.zero_mul, Nat.add_zero]
      exact (and_iff_left (.inl rfl)).symm
  | cons group groups ih =>
      have hsplit : Nat.ofDigits 128 (group :: groups) * 2 ^ shift =
          group * 2 ^ shift + Nat.ofDigits 128 groups * 2 ^ (shift + 7) := by
        rw [Nat.ofDigits_cons, Nat.pow_add]
        ring
      rw [accumulate, hsplit]
      by_cases hshift : shift < 1024
      · by_cases hsmall : value + group * 2 ^ shift < Js.exactBound
        · have hgroup : JsNat.mul (.finite group) (.twoPow shift) = .finite (group * 2 ^ shift) := by
            rw [JsNat.twoPow_of_lt hshift, JsNat.mul_finite (by omega)]
          rw [hgroup, JsNat.add_finite hsmall, ih, List.length_cons, Nat.add_assoc value]
          refine and_congr_right fun _ => ?_
          cases groups with
          | nil =>
              simp only [List.length_nil, true_or, true_iff, reduceCtorEq, false_or]
              omega
          | cons group' groups =>
              simp only [List.length_cons, reduceCtorEq, false_or]
              omega
        · refine Iff.intro (fun h => ?_) fun h => ?_
          · have hsum : ((JsNat.finite value).add (.mul (.finite group) (.twoPow shift))).Exact := by
              by_contra hinexact
              exact not_exact_accumulate hinexact _ _ h
            have hgroup := (JsNat.exact_mul_twoPow_iff hshift).mp (JsNat.exact_of_add hsum).2
            rw [JsNat.twoPow_of_lt hshift, JsNat.mul_finite hgroup] at hsum
            exact absurd ((JsNat.exact_ofNat_iff _).mp hsum) hsmall
          · omega
      · refine Iff.intro (fun h => ?_) fun h => ?_
        · exact absurd h (not_exact_accumulate (fun hsum => JsNat.not_exact_mul_twoPow (Nat.not_lt.mp hshift)
            (JsNat.exact_of_add hsum).2) _ _)
        · have hlength := h.2.resolve_left (List.cons_ne_nil _ _)
          rw [List.length_cons] at hlength
          omega

/-- Any buffer, offset and prefix: what is returned is at most `2^53 - 1` exactly when the integer does not go on to
more than that and does not take more than 147 continuation octets. -/
theorem decodeInteger_bounded_iff (buf : Bytes) (offset prefixBits : Nat) :
    (∀ decoded, decodeInteger buf offset prefixBits = .ok decoded → ∃ n ≤ 2 ^ 53 - 1, decoded.value = .finite n) ↔
      ∀ first groups, buf[offset]? = some first → first.toNat &&& (2 ^ prefixBits - 1) = 2 ^ prefixBits - 1 →
        continuationGroups (buf.drop (offset + 1)) = some groups →
        2 ^ prefixBits - 1 + Nat.ofDigits 128 groups ≤ 2 ^ 53 - 1 ∧ groups.length ≤ 147 := by
  cases hfirst : buf[offset]? with
  | none =>
      rw [decodeInteger, hfirst]
      exact ⟨fun _ _ _ h => absurd h.symm (Option.some_ne_none _), fun _ _ h => absurd h (by simp)⟩
  | some first =>
      rw [decodeInteger, hfirst]
      dsimp only
      by_cases hfull : first.toNat &&& (2 ^ prefixBits - 1) = 2 ^ prefixBits - 1
      · rw [hfull, if_neg (lt_irrefl _)]
        have hvalue := decodeContinuation_eq buf (offset + 1) (.finite (2 ^ prefixBits - 1)) 0
        cases hgroups : continuationGroups (buf.drop (offset + 1)) with
        | none =>
            rw [hgroups, Option.map_none, Option.map_eq_none_iff] at hvalue
            refine Iff.intro (fun _ _ groups _ _ h => absurd h (by simp)) fun _ decoded hdecoded => ?_
            rw [hdecoded] at hvalue
            exact absurd hvalue (Option.some_ne_none _)
        | some groups =>
            rw [hgroups, Option.map_some] at hvalue
            obtain ⟨decoded, hdecoded, hsum⟩ := Option.map_eq_some_iff.mp hvalue
            have hok := toOption_eq_some_iff.mp hdecoded
            have hexact := exact_accumulate_iff (2 ^ prefixBits - 1) 0 groups
            rw [← hsum, Nat.pow_zero, Nat.mul_one, or_iff_right (continuationGroups_ne_nil hgroups), Js.exactBound] at hexact
            calc (∀ decoded, decodeContinuation buf (offset + 1) (.finite (2 ^ prefixBits - 1)) 0 = .ok decoded →
                    ∃ n ≤ 2 ^ 53 - 1, decoded.value = .finite n) ↔ decoded.value.Exact := by
                  simp only [hok, Except.ok.injEq, forall_eq', JsNat.exact_iff]
              _ ↔ 2 ^ prefixBits - 1 + Nat.ofDigits 128 groups ≤ 2 ^ 53 - 1 ∧ groups.length ≤ 147 := by
                  rw [hexact]
                  omega
              _ ↔ _ := by
                  refine Iff.intro (fun h first' groups' _ _ hsame => ?_) fun h => h first groups rfl hfull rfl
                  obtain rfl := Option.some.inj hsame
                  exact h
      · have hsmall : first.toNat &&& (2 ^ prefixBits - 1) < 2 ^ prefixBits - 1 :=
          Nat.lt_of_le_of_ne Nat.and_le_right hfull
        rw [if_pos hsmall]
        refine Iff.intro (fun _ first' _ hsome hfull' => ?_) fun _ decoded hdecoded => ?_
        · obtain rfl := Option.some.inj hsome
          exact absurd hfull' hfull
        · obtain rfl := Except.ok.inj hdecoded
          refine ⟨_, ?_, rfl⟩
          have hoctet := first.toNat_lt
          have hlow : first.toNat &&& (2 ^ prefixBits - 1) ≤ first.toNat := Nat.and_le_left
          omega

/-- A prefix of seven bits and eight continuation octets spell more than `2^56`. -/
theorem decodeInteger_large :
    ¬ ∀ decoded, decodeInteger [0x7f, 0xff, 0xff, 0xff, 0xff, 0xff, 0xff, 0xff, 0x7f] 0 7 = .ok decoded →
      ∃ n ≤ 2 ^ 53 - 1, decoded.value = .finite n := by
  intro h
  obtain ⟨n, hn, hvalue⟩ := h ⟨.finite 72057594037928064, 9⟩ (by decide +kernel)
  rw [← JsNat.finite.inj hvalue] at hn
  exact absurd hn (by decide)

end BrowsercoreHttp2
