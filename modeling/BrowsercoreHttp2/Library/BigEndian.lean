import Mathlib.Data.List.Basic
import Mathlib.Tactic.Ring

/-!
# Fixed-width big-endian integers

`octetsOf w n` is what a writer of `w` octets leaves of `n`: its `w` low octets, the most significant one
first. Reading is the fold that multiplies by 256 and adds.
-/

namespace BrowsercoreHttp2

def octetsOf : Nat → Nat → List UInt8
  | 0, _ => []
  | w + 1, n => UInt8.ofNat (n / 256 ^ w) :: octetsOf w n

@[simp] theorem octetsOf_length (w n : Nat) : (octetsOf w n).length = w := by
  induction w with
  | zero => rfl
  | succ w ih => simp [octetsOf, ih]

theorem foldl_octetsOf (w n acc : Nat) :
    (octetsOf w n).foldl (fun n b => n * 256 + b.toNat) acc = acc * 256 ^ w + n % 256 ^ w := by
  induction w generalizing acc with
  | zero => simp [octetsOf, Nat.mod_one]
  | succ w ih =>
      have hoctet : (UInt8.ofNat (n / 256 ^ w)).toNat = n / 256 ^ w % 256 := rfl
      rw [octetsOf, List.foldl_cons, ih, hoctet, Nat.pow_succ, Nat.mod_mul]
      ring

theorem foldl_octets_acc (octets : List UInt8) (acc : Nat) :
    octets.foldl (fun n b => n * 256 + b.toNat) acc =
      acc * 256 ^ octets.length + octets.foldl (fun n b => n * 256 + b.toNat) 0 := by
  induction octets generalizing acc with
  | nil => simp
  | cons octet octets ih =>
      rw [List.foldl_cons, List.foldl_cons, ih, ih (0 * 256 + octet.toNat), List.length_cons, Nat.pow_succ]
      ring

theorem foldl_octets_lt (octets : List UInt8) :
    octets.foldl (fun n b => n * 256 + b.toNat) 0 < 256 ^ octets.length := by
  induction octets with
  | nil => exact Nat.one_pos
  | cons octet octets ih =>
      have hoctet := octet.toNat_lt
      rw [List.foldl_cons, foldl_octets_acc, List.length_cons, Nat.pow_succ, Nat.zero_mul, Nat.zero_add]
      calc octet.toNat * 256 ^ octets.length + octets.foldl (fun n b => n * 256 + b.toNat) 0
          < octet.toNat * 256 ^ octets.length + 256 ^ octets.length := Nat.add_lt_add_left ih _
        _ = 256 ^ octets.length * (octet.toNat + 1) := by ring
        _ ≤ 256 ^ octets.length * 256 := Nat.mul_le_mul_left _ hoctet

theorem octetsOf_mul_add (w k n : Nat) : octetsOf w (k * 256 ^ w + n) = octetsOf w n := by
  induction w generalizing k with
  | zero => rfl
  | succ w ih =>
      have hpow : 0 < 256 ^ w := Nat.pow_pos (by decide)
      have hquotient : (k * 256 ^ (w + 1) + n) / 256 ^ w = k * 256 + n / 256 ^ w := by
        rw [Nat.pow_succ', ← Nat.mul_assoc, Nat.add_comm, Nat.add_mul_div_right _ _ hpow, Nat.add_comm]
      have hoctet : UInt8.ofNat (k * 256 + n / 256 ^ w) = UInt8.ofNat (n / 256 ^ w) := by
        apply UInt8.toNat_inj.mp
        simp
      have hrest := ih (k * 256)
      rw [Nat.mul_assoc, ← Nat.pow_succ'] at hrest
      rw [octetsOf, octetsOf, hquotient, hoctet, hrest]

theorem octetsOf_foldl (octets : List UInt8) :
    octetsOf octets.length (octets.foldl (fun n b => n * 256 + b.toNat) 0) = octets := by
  induction octets with
  | nil => rfl
  | cons octet octets ih =>
      have hpow : 0 < 256 ^ octets.length := Nat.pow_pos (by decide)
      have hfirst : (octet.toNat * 256 ^ octets.length + octets.foldl (fun n b => n * 256 + b.toNat) 0) / 256 ^ octets.length =
          octet.toNat := by
        rw [Nat.add_comm, Nat.add_mul_div_right _ _ hpow, Nat.div_eq_of_lt (foldl_octets_lt octets), Nat.zero_add]
      rw [List.foldl_cons, foldl_octets_acc, Nat.zero_mul, Nat.zero_add, List.length_cons, octetsOf, hfirst, octetsOf_mul_add, ih,
        UInt8.ofNat_toNat]

theorem shift_or_shift_or (a b c : UInt8) :
    a.toNat <<< 16 ||| b.toNat <<< 8 ||| c.toNat = (a.toNat * 256 + b.toNat) * 256 + c.toNat := by
  have hb : b.toNat <<< 8 < 2 ^ 16 := by
    have := b.toNat_lt
    rw [Nat.shiftLeft_eq]
    omega
  have hbc : b.toNat <<< 8 + c.toNat < 2 ^ 16 := by
    have := b.toNat_lt
    have := c.toNat_lt
    rw [Nat.shiftLeft_eq]
    omega
  rw [Nat.or_assoc, ← Nat.shiftLeft_add_eq_or_of_lt c.toNat_lt, ← Nat.shiftLeft_add_eq_or_of_lt hbc, Nat.shiftLeft_eq,
    Nat.shiftLeft_eq]
  ring

end BrowsercoreHttp2
