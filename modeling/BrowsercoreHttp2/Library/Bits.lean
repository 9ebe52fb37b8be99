import Mathlib.Algebra.Group.Nat.Defs
import Mathlib.Data.List.Basic

/-!
# Bit strings, most significant bit first

`bitsOf w n` is the `w` lowest bits of `n` written most significant first, which is the order in which
octets travel and in which a code word is read. Concatenating bit strings is arithmetic on the numbers
they spell, and a string of known width determines the number.
-/

namespace BrowsercoreHttp2

def bitsOf : Nat → Nat → List Bool
  | 0, _ => []
  | w + 1, n => n.testBit w :: bitsOf w n

@[simp] theorem bitsOf_length (w n : Nat) : (bitsOf w n).length = w := by
  induction w with
  | zero => rfl
  | succ w ih => simp [bitsOf, ih]

theorem bitsOf_congr {w n m : Nat} (h : ∀ i < w, n.testBit i = m.testBit i) : bitsOf w n = bitsOf w m := by
  induction w with
  | zero => rfl
  | succ w ih =>
      rw [bitsOf, bitsOf, h w (by omega), ih fun i hi => h i (by omega)]

@[simp] theorem bitsOf_mod (w n : Nat) : bitsOf w (n % 2 ^ w) = bitsOf w n :=
  bitsOf_congr fun i hi => by simp [Nat.testBit_mod_two_pow, hi]

theorem bitsOf_getElem (w n i : Nat) (hi : i < (bitsOf w n).length) : (bitsOf w n)[i] = n.testBit (w - 1 - i) := by
  induction w generalizing i with
  | zero => simp [bitsOf] at hi
  | succ w ih =>
      cases i with
      | zero => simp [bitsOf]
      | succ i =>
          have hlen : i < (bitsOf w n).length := by simpa [bitsOf] using hi
          simp only [bitsOf, List.getElem_cons_succ, ih i hlen]
          congr 1
          omega

theorem bitsOf_add (v w n : Nat) : bitsOf (v + w) n = bitsOf v (n >>> w) ++ bitsOf w n := by
  induction v with
  | zero => simp [bitsOf]
  | succ v ih =>
      rw [show v + 1 + w = (v + w) + 1 by omega, bitsOf, bitsOf, ih, Nat.testBit_shiftRight,
        Nat.add_comm w v, List.cons_append]

theorem bitsOf_take {v w : Nat} (n : Nat) (h : v ≤ w) : (bitsOf w n).take v = bitsOf v (n >>> (w - v)) := by
  obtain ⟨u, rfl⟩ := Nat.exists_eq_add_of_le h
  rw [bitsOf_add, List.take_left' (bitsOf_length _ _), Nat.add_sub_cancel_left]

theorem bitsOf_drop {v w : Nat} (n : Nat) (h : v ≤ w) : (bitsOf w n).drop v = bitsOf (w - v) n := by
  obtain ⟨u, rfl⟩ := Nat.exists_eq_add_of_le h
  rw [bitsOf_add, List.drop_left' (bitsOf_length _ _), Nat.add_sub_cancel_left]

theorem bitsOf_append (v w n m : Nat) (hm : m < 2 ^ w) : bitsOf v n ++ bitsOf w m = bitsOf (v + w) (n * 2 ^ w + m) := by
  rw [bitsOf_add, Nat.shiftRight_eq_div_pow]
  have hdiv : (n * 2 ^ w + m) / 2 ^ w = n := by
    rw [Nat.mul_comm, Nat.mul_add_div (Nat.two_pow_pos w), Nat.div_eq_of_lt hm, Nat.add_zero]
  have hmod : (n * 2 ^ w + m) % 2 ^ w = m := by
    rw [Nat.mul_comm, Nat.mul_add_mod, Nat.mod_eq_of_lt hm]
  rw [hdiv, ← bitsOf_mod w (n * 2 ^ w + m), hmod]

theorem bitsOf_eq_iff {w n m : Nat} : bitsOf w n = bitsOf w m ↔ ∀ i < w, n.testBit i = m.testBit i := by
  refine ⟨fun h i hi => ?_, bitsOf_congr⟩
  have hget := List.getElem_of_eq h (i := w - 1 - i) (by simp; omega)
  rw [bitsOf_getElem, bitsOf_getElem, show w - 1 - (w - 1 - i) = i by omega] at hget
  exact hget

theorem bitsOf_injective {w n m : Nat} (hn : n < 2 ^ w) (hm : m < 2 ^ w) (h : bitsOf w n = bitsOf w m) : n = m := by
  apply Nat.eq_of_testBit_eq
  intro i
  by_cases hi : i < w
  · exact bitsOf_eq_iff.mp h i hi
  · have hle : 2 ^ w ≤ 2 ^ i := Nat.pow_le_pow_right (by omega) (by omega)
    rw [Nat.testBit_lt_two_pow (by omega), Nat.testBit_lt_two_pow (by omega)]

/-- Whether the bits are all the same. -/
def allAlike (bs : List Bool) : Bool := bs.all id || bs.all not

theorem allAlike_iff {bs : List Bool} : allAlike bs = true ↔ ∀ b ∈ bs, ∀ b' ∈ bs, b = b' := by
  simp only [allAlike, Bool.or_eq_true, List.all_eq_true, id_eq, Bool.not_eq_true']
  constructor
  · rintro (h | h) b hb b' hb'
    · rw [h b hb, h b' hb']
    · rw [h b hb, h b' hb']
  · intro h
    by_cases htrue : true ∈ bs
    · exact .inl fun b hb => h b hb true htrue
    · refine .inr fun b hb => ?_
      cases b with
      | false => rfl
      | true => exact absurd hb htrue

theorem mem_bitsOf {w n : Nat} {b : Bool} : b ∈ bitsOf w n ↔ ∃ i < w, n.testBit i = b := by
  induction w with
  | zero => simp [bitsOf]
  | succ w ih =>
      rw [bitsOf, List.mem_cons, ih]
      constructor
      · rintro (rfl | ⟨i, hi, rfl⟩)
        · exact ⟨w, Nat.lt_succ_self w, rfl⟩
        · exact ⟨i, by omega, rfl⟩
      · rintro ⟨i, hi, rfl⟩
        rcases Nat.lt_succ_iff_lt_or_eq.mp hi with hi | rfl
        · exact .inr ⟨i, hi, rfl⟩
        · exact .inl rfl

theorem allAlike_bitsOf {w n : Nat} : allAlike (bitsOf w n) = true ↔ ∀ i < w, n.testBit i = n.testBit 0 := by
  rw [allAlike_iff]
  constructor
  · intro h i hi
    exact h _ (mem_bitsOf.mpr ⟨i, hi, rfl⟩) _ (mem_bitsOf.mpr ⟨0, by omega, rfl⟩)
  · intro h b hb b' hb'
    obtain ⟨i, hi, rfl⟩ := mem_bitsOf.mp hb
    obtain ⟨j, hj, rfl⟩ := mem_bitsOf.mp hb'
    rw [h i hi, h j hj]

theorem bitsOf_prefix_iff {v w n m : Nat} (hn : n < 2 ^ v) (hm : m < 2 ^ w) :
    bitsOf v n <+: bitsOf w m ↔ v ≤ w ∧ n = m >>> (w - v) := by
  constructor
  · intro h
    have hle : v ≤ w := by simpa using h.length_le
    refine ⟨hle, ?_⟩
    rw [show w = v + (w - v) by omega, bitsOf_add] at h
    have heq : bitsOf v n = bitsOf v (m >>> (w - v)) :=
      (List.prefix_of_prefix_length_le h (List.prefix_append _ _) (by simp)).eq_of_length (by simp)
    refine bitsOf_injective hn ?_ heq
    rw [Nat.shiftRight_eq_div_pow, Nat.div_lt_iff_lt_mul (Nat.two_pow_pos _), ← Nat.pow_add]
    rwa [show v + (w - v) = w by omega]
  · rintro ⟨hle, rfl⟩
    nth_rewrite 2 [show w = v + (w - v) by omega]
    rw [bitsOf_add]
    exact List.prefix_append _ _

theorem bitsOf_ones (w : Nat) : bitsOf w (2 ^ w - 1) = List.replicate w true := by
  apply List.ext_getElem (by simp)
  intro i hi _
  have hlt : i < w := by simpa using hi
  rw [bitsOf_getElem, List.getElem_replicate, Nat.testBit_two_pow_sub_one]
  exact decide_eq_true (by omega)

/-- The bits of an octet sequence. -/
def octetBits (bytes : List UInt8) : List Bool := bytes.flatMap fun b => bitsOf 8 b.toNat

@[simp] theorem octetBits_nil : octetBits [] = [] := rfl

@[simp] theorem octetBits_cons (b : UInt8) (bytes : List UInt8) : octetBits (b :: bytes) = bitsOf 8 b.toNat ++ octetBits bytes := rfl

@[simp] theorem octetBits_append (as bs : List UInt8) : octetBits (as ++ bs) = octetBits as ++ octetBits bs := by
  simp [octetBits]

@[simp] theorem octetBits_length (bytes : List UInt8) : (octetBits bytes).length = 8 * bytes.length := by
  induction bytes with
  | nil => rfl
  | cons b bytes ih => simp [ih]; omega

end BrowsercoreHttp2
