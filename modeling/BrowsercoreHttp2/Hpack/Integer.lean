import BrowsercoreHttp2.Hpack.Error

/-!
# HPACK integers

The N-bit prefix integers of RFC 7541 section 5.1. The decoder accumulates in a JavaScript number, so a
value is a `JsNat`: with enough continuation octets it is rounded, infinite or not a number.
-/

namespace BrowsercoreHttp2

/-- The continuation octets of `remaining`, seven bits each, least significant group first. -/
def encodeContinuation (remaining : Nat) : Bytes :=
  let octet := remaining % 128
  if 0 < remaining / 128 then UInt8.ofNat (octet ||| 0x80) :: encodeContinuation (remaining / 128)
  else [UInt8.ofNat octet]
termination_by remaining

def encodeInteger (value : Int) (prefixBits : Nat) : Except HpackError Bytes :=
  if value < 0 then .error (.integerEncode value)
  else
    let maxPrefix := 2 ^ prefixBits - 1
    if value.toNat < maxPrefix then .ok [UInt8.ofNat value.toNat]
    -- the subtraction rounds; the divisions by 128 that follow do not
    else .ok (UInt8.ofNat maxPrefix :: encodeContinuation (Js.roundInteger (value.toNat - maxPrefix)))

structure DecodedInteger where
  value : JsNat
  nextOffset : Nat
  deriving DecidableEq

def decodeContinuation (buf : Bytes) (position : Nat) (value : JsNat) (shift : Nat) : Except HpackError DecodedInteger :=
  if h : position < buf.length then
    let octet := buf[position].toNat
    let value := value.add (.mul (.finite (octet &&& 0x7f)) (.twoPow shift))
    if octet &&& 0x80 = 0 then .ok ⟨value, position + 1⟩
    else decodeContinuation buf (position + 1) value (shift + 7)
  else .error .integerContinuation
termination_by buf.length - position

def decodeInteger (buf : Bytes) (offset prefixBits : Nat) : Except HpackError DecodedInteger :=
  match buf[offset]? with
  | none => .error .integerFirstOctet
  | some firstOctet =>
      let maxPrefix := 2 ^ prefixBits - 1
      let first := firstOctet.toNat &&& maxPrefix
      if first < maxPrefix then .ok ⟨.finite first, offset + 1⟩
      else decodeContinuation buf (offset + 1) (.finite maxPrefix) 0

theorem decodeContinuation_nextOffset {buf : Bytes} {position shift : Nat} {value : JsNat} {decoded : DecodedInteger}
    (h : decodeContinuation buf position value shift = .ok decoded) :
    position < decoded.nextOffset ∧ decoded.nextOffset ≤ buf.length := by
  fun_induction decodeContinuation buf position value shift with
  | case1 position value shift hlt =>
      simp only [Except.ok.injEq] at h
      subst h
      exact ⟨Nat.lt_succ_self _, hlt⟩
  | case2 position value shift hlt octet value' hmore ih =>
      have := ih h
      omega
  | case3 => simp at h

/-- Decoding consumes at least one octet and stays inside the buffer. -/
theorem decodeInteger_nextOffset {buf : Bytes} {offset prefixBits : Nat} {decoded : DecodedInteger}
    (h : decodeInteger buf offset prefixBits = .ok decoded) :
    offset < decoded.nextOffset ∧ decoded.nextOffset ≤ buf.length := by
  rw [decodeInteger] at h
  split at h
  · simp at h
  · rename_i firstOctet hfirst
    have hoffset : offset < buf.length := (List.getElem?_eq_some_iff.mp hfirst).1
    dsimp only at h
    split at h
    · simp only [Except.ok.injEq] at h
      subst h
      exact ⟨Nat.lt_succ_self _, hoffset⟩
    · have := decodeContinuation_nextOffset h
      omega

/-! ### Round trip -/

theorem continuationOctet_more {octet : Nat} (h : octet < 128) :
    (UInt8.ofNat (octet ||| 0x80)).toNat &&& 0x7f = octet ∧ (UInt8.ofNat (octet ||| 0x80)).toNat &&& 0x80 ≠ 0 := by
  have hall : ∀ o : Fin 128,
      (UInt8.ofNat (o.val ||| 0x80)).toNat &&& 0x7f = o.val ∧ (UInt8.ofNat (o.val ||| 0x80)).toNat &&& 0x80 ≠ 0 := by
    decide
  exact hall ⟨octet, h⟩

theorem continuationOctet_last {octet : Nat} (h : octet < 128) :
    (UInt8.ofNat octet).toNat &&& 0x7f = octet ∧ (UInt8.ofNat octet).toNat &&& 0x80 = 0 := by
  have hall : ∀ o : Fin 128, (UInt8.ofNat o.val).toNat &&& 0x7f = o.val ∧ (UInt8.ofNat o.val).toNat &&& 0x80 = 0 := by
    decide
  exact hall ⟨octet, h⟩

/-- A seven-bit group added to a value stays exact below 2^53. -/
theorem add_group {value octet shift : Nat} (hshift : shift ≤ 53) (h : value + octet * 2 ^ shift < Js.exactBound) :
    JsNat.add (.finite value) (.mul (.finite octet) (.twoPow shift)) = .finite (value + octet * 2 ^ shift) := by
  rw [JsNat.twoPow_of_lt (by omega), JsNat.mul_finite (by omega), JsNat.add_finite h]

theorem decodeContinuation_step {buf : Bytes} {position : Nat} {octet : UInt8} (h : buf[position]? = some octet) (value : JsNat)
    (shift : Nat) :
    decodeContinuation buf position value shift =
      let value := value.add (.mul (.finite (octet.toNat &&& 0x7f)) (.twoPow shift))
      if octet.toNat &&& 0x80 = 0 then .ok ⟨value, position + 1⟩ else decodeContinuation buf (position + 1) value (shift + 7) := by
  obtain ⟨hlt, hoctet⟩ := List.getElem?_eq_some_iff.mp h
  rw [decodeContinuation, dif_pos hlt, hoctet]

/-- The continuation octets read back, wherever they stand. -/
theorem decodeContinuation_encodeContinuation (before rest : Bytes) (remaining value shift : Nat) (hshift : shift ≤ 53)
    (hexact : value + remaining * 2 ^ shift < Js.exactBound) :
    decodeContinuation (before ++ encodeContinuation remaining ++ rest) before.length (.finite value) shift =
      .ok ⟨.finite (value + remaining * 2 ^ shift), before.length + (encodeContinuation remaining).length⟩ := by
  fun_induction encodeContinuation remaining generalizing before value shift with
  | case1 remaining octet hmore ih =>
      have hoctet : octet < 128 := Nat.mod_lt _ (by decide)
      have hsplit : remaining * 2 ^ shift = octet * 2 ^ shift + remaining / 128 * 2 ^ (shift + 7) := by
        rw [Nat.pow_add, ← Nat.mul_assoc, Nat.mul_right_comm, ← Nat.add_mul]
        congr 1
        omega
      have hnext : shift + 7 ≤ 53 := by
        by_contra hlarge
        have hpow : 2 ^ 53 ≤ 1 * 2 ^ (shift + 7) := by
          rw [Nat.one_mul]
          exact Nat.pow_le_pow_right (by decide) (by omega)
        have hgroup : 1 * 2 ^ (shift + 7) ≤ remaining / 128 * 2 ^ (shift + 7) := Nat.mul_le_mul_right _ hmore
        rw [Js.exactBound] at hexact
        omega
      obtain ⟨hlow, hhigh⟩ := continuationOctet_more hoctet
      have hget : (before ++ UInt8.ofNat (octet ||| 0x80) :: encodeContinuation (remaining / 128) ++ rest)[before.length]? =
          some (UInt8.ofNat (octet ||| 0x80)) := by simp
      rw [decodeContinuation_step hget, hlow, add_group hshift (by omega), if_neg hhigh]
      have hrest := ih (before ++ [UInt8.ofNat (octet ||| 0x80)]) (value + octet * 2 ^ shift) (shift + 7) hnext (by omega)
      rw [List.length_append, List.length_singleton, List.append_assoc before, List.singleton_append] at hrest
      rw [hrest, hsplit, List.length_cons, Nat.add_assoc value, Nat.add_assoc before.length, Nat.add_comm 1]
  | case2 remaining octet hlast =>
      have hvalue : octet = remaining := Nat.mod_eq_of_lt (by omega)
      have hoctet : octet < 128 := Nat.mod_lt _ (by decide)
      obtain ⟨hlow, hhigh⟩ := continuationOctet_last hoctet
      have hget : (before ++ [UInt8.ofNat octet] ++ rest)[before.length]? = some (UInt8.ofNat octet) := by simp
      rw [hvalue] at hlow hhigh hget
      rw [hvalue, decodeContinuation_step hget, hlow, add_group hshift hexact, if_pos hhigh]
      rfl

/-- The continuation octets of any number read back as one value, rounded or infinite where it is too large. -/
theorem decodeContinuation_ends (remaining : Nat) (value : JsNat) (shift : Nat) :
    ∃ read, ∀ before rest : Bytes, decodeContinuation (before ++ encodeContinuation remaining ++ rest) before.length value shift =
      .ok ⟨read, before.length + (encodeContinuation remaining).length⟩ := by
  fun_induction encodeContinuation remaining generalizing value shift with
  | case1 remaining octet hmore ih =>
      have hoctet : octet < 128 := Nat.mod_lt _ (by decide)
      obtain ⟨hlow, hhigh⟩ := continuationOctet_more hoctet
      obtain ⟨read, hread⟩ := ih (value.add (.mul (.finite octet) (.twoPow shift))) (shift + 7)
      refine ⟨read, fun before rest => ?_⟩
      have hget : (before ++ UInt8.ofNat (octet ||| 0x80) :: encodeContinuation (remaining / 128) ++ rest)[before.length]? =
          some (UInt8.ofNat (octet ||| 0x80)) := by simp
      have hrest := hread (before ++ [UInt8.ofNat (octet ||| 0x80)]) rest
      rw [List.length_append, List.length_singleton, List.append_assoc before, List.singleton_append] at hrest
      rw [decodeContinuation_step hget, hlow, if_neg hhigh, hrest, List.length_cons, Nat.add_assoc before.length, Nat.add_comm 1]
  | case2 remaining octet hlast =>
      have hoctet : octet < 128 := Nat.mod_lt _ (by decide)
      obtain ⟨hlow, hhigh⟩ := continuationOctet_last hoctet
      refine ⟨value.add (.mul (.finite octet) (.twoPow shift)), fun before rest => ?_⟩
      have hget : (before ++ [UInt8.ofNat octet] ++ rest)[before.length]? = some (UInt8.ofNat octet) := by simp
      rw [decodeContinuation_step hget, hlow, if_pos hhigh]
      rfl

/-- The octets of an encoded integer. -/
def integerOctets (n prefixBits : Nat) : Bytes :=
  if n < 2 ^ prefixBits - 1 then [UInt8.ofNat n]
  else UInt8.ofNat (2 ^ prefixBits - 1) :: encodeContinuation (Js.roundInteger (n - (2 ^ prefixBits - 1)))

theorem encodeInteger_natCast (n prefixBits : Nat) : encodeInteger n prefixBits = .ok (integerOctets n prefixBits) := by
  have hnonneg : ¬ (n : Int) < 0 := by omega
  rw [encodeInteger, if_neg hnonneg, integerOctets]
  dsimp only
  rw [Int.toNat_natCast]
  split <;> rfl

theorem integerOctets_cons (n : Nat) {prefixBits : Nat} (hwidth : prefixBits ≤ 8) :
    ∃ first more, integerOctets n prefixBits = first :: more ∧ first.toNat ≤ 2 ^ prefixBits - 1 := by
  have hmax : 2 ^ prefixBits - 1 < 256 :=
    (Nat.sub_lt (Nat.two_pow_pos _) Nat.one_pos).trans_le (Nat.pow_le_pow_right (by decide) hwidth : _ ≤ 2 ^ 8)
  rw [integerOctets]
  split
  · rename_i hsmall
    exact ⟨_, _, rfl, (UInt8.toNat_ofNat_of_lt (hsmall.trans hmax)).trans_le hsmall.le⟩
  · exact ⟨_, _, rfl, (UInt8.toNat_ofNat_of_lt hmax).le⟩

/-- An encoded integer reads back wherever it stands, whatever flags share its first octet. -/
theorem decodeInteger_integerOctets (before rest : Bytes) {n prefixBits : Nat} (hwidth : prefixBits ≤ 8)
    (hn : n < Js.exactBound) {first marked : UInt8} {more : Bytes} (hoctets : integerOctets n prefixBits = first :: more)
    (hmarked : marked.toNat &&& (2 ^ prefixBits - 1) = first.toNat) :
    decodeInteger (before ++ marked :: more ++ rest) before.length prefixBits =
      .ok ⟨.finite n, before.length + (marked :: more).length⟩ := by
  have hget : (before ++ marked :: more ++ rest)[before.length]? = some marked := by simp
  have hmax : 2 ^ prefixBits - 1 < 256 :=
    (Nat.sub_lt (Nat.two_pow_pos _) Nat.one_pos).trans_le (Nat.pow_le_pow_right (by decide) hwidth : _ ≤ 2 ^ 8)
  rw [decodeInteger, hget]
  dsimp only
  rw [hmarked]
  rw [integerOctets] at hoctets
  split at hoctets
  · rename_i hsmall
    obtain ⟨rfl, rfl⟩ := List.cons.inj hoctets
    have hfirst : (UInt8.ofNat n).toNat = n := UInt8.toNat_ofNat_of_lt (hsmall.trans hmax)
    rw [hfirst, if_pos hsmall]
    rfl
  · rename_i hlarge
    rw [Js.roundInteger_of_lt ((Nat.sub_le _ _).trans_lt hn)] at hoctets
    obtain ⟨rfl, rfl⟩ := List.cons.inj hoctets
    have hfirst : (UInt8.ofNat (2 ^ prefixBits - 1)).toNat = 2 ^ prefixBits - 1 := UInt8.toNat_ofNat_of_lt hmax
    have hsum : 2 ^ prefixBits - 1 + (n - (2 ^ prefixBits - 1)) * 2 ^ 0 = n := by omega
    have hrest := decodeContinuation_encodeContinuation (before ++ [marked]) rest (n - (2 ^ prefixBits - 1))
      (2 ^ prefixBits - 1) 0 (by decide) (by rwa [hsum])
    rw [List.length_append, List.length_singleton, List.append_assoc before, List.singleton_append, hsum] at hrest
    rw [hfirst, if_neg (lt_irrefl _), hrest, List.length_cons, Nat.add_assoc, Nat.add_comm 1]

/-- An encoded integer of any size is read up to its end, and exactly if it is below `2^53`. -/
theorem decodeInteger_ends {n prefixBits : Nat} (hwidth : prefixBits ≤ 7) {first marked : UInt8} {more : Bytes}
    (hoctets : integerOctets n prefixBits = first :: more) (hmarked : marked.toNat &&& (2 ^ prefixBits - 1) = first.toNat) :
    ∃ read, (n < Js.exactBound → read = .finite n) ∧ ∀ before rest : Bytes,
      decodeInteger (before ++ marked :: more ++ rest) before.length prefixBits =
        .ok ⟨read, before.length + (marked :: more).length⟩ := by
  by_cases hn : n < Js.exactBound
  · exact ⟨.finite n, fun _ => rfl,
      fun before rest => decodeInteger_integerOctets before rest (hwidth.trans (by decide)) hn hoctets hmarked⟩
  have hmax : 2 ^ prefixBits ≤ 2 ^ 7 := Nat.pow_le_pow_right (by decide) hwidth
  have hlarge : ¬ n < 2 ^ prefixBits - 1 := by
    rw [Js.exactBound] at hn
    omega
  rw [integerOctets, if_neg hlarge] at hoctets
  obtain ⟨rfl, rfl⟩ := List.cons.inj hoctets
  have hfirst : (UInt8.ofNat (2 ^ prefixBits - 1)).toNat = 2 ^ prefixBits - 1 :=
    UInt8.toNat_ofNat_of_lt (show _ < 256 by omega)
  obtain ⟨read, hread⟩ := decodeContinuation_ends (Js.roundInteger (n - (2 ^ prefixBits - 1))) (.finite (2 ^ prefixBits - 1)) 0
  refine ⟨read, fun h => absurd h hn, fun before rest => ?_⟩
  have hget : (before ++ marked :: encodeContinuation (Js.roundInteger (n - (2 ^ prefixBits - 1))) ++ rest)[before.length]? =
      some marked := by simp
  have hrest := hread (before ++ [marked]) rest
  rw [List.length_append, List.length_singleton, List.append_assoc before, List.singleton_append] at hrest
  rw [decodeInteger, hget]
  dsimp only
  rw [hmarked, hfirst, if_neg (lt_irrefl _), hrest, List.length_cons, Nat.add_assoc, Nat.add_comm 1]

end BrowsercoreHttp2
