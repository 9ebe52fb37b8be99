import Mathlib.Data.Nat.Bitwise

/-!
# JavaScript's bitwise operators

The operands are taken modulo `2 ^ 32`. `&` and `|` give back a signed integer, negative when bit 31 is
set; `>>>` gives back an unsigned one.
-/

namespace BrowsercoreHttp2

namespace Js

def toInt32 (n : Int) : BitVec 32 := BitVec.ofInt 32 n

/-- `a & b`. -/
def bitAnd (a b : Int) : Int := (toInt32 a &&& toInt32 b).toInt

/-- `a | b`. -/
def bitOr (a b : Int) : Int := (toInt32 a ||| toInt32 b).toInt

/-- `a >>> s`. -/
def unsignedShiftRight (a : Int) (s : Nat) : Int := (toInt32 a >>> s).toNat

theorem toNat_toInt32 (n : Nat) : (toInt32 n).toNat = n % 2 ^ 32 := by
  simp [toInt32]

theorem bitAnd_natCast (n : Nat) {m : Nat} (hm : m < 2 ^ 31) : bitAnd n m = (n &&& m : Nat) := by
  have hnat : (toInt32 n &&& toInt32 m).toNat = n &&& m := by
    rw [BitVec.toNat_and, toNat_toInt32, toNat_toInt32, ← Nat.and_mod_two_pow]
    exact Nat.mod_eq_of_lt (Nat.and_lt_two_pow n (by omega))
  have hlt : n &&& m < 2 ^ 31 := Nat.and_lt_two_pow n hm
  rw [bitAnd, BitVec.toInt_eq_toNat_of_lt (by omega), hnat]

theorem unsignedShiftRight_natCast {n : Nat} (h : n < 2 ^ 32) (s : Nat) : unsignedShiftRight n s = (n >>> s : Nat) := by
  rw [unsignedShiftRight, BitVec.toNat_ushiftRight, toNat_toInt32, Nat.mod_eq_of_lt h]

theorem toInt_emod (b : BitVec 32) : (b.toInt % 2 ^ 32).toNat = b.toNat := by
  have hword := congrArg BitVec.toNat (BitVec.ofInt_toInt (x := b))
  rwa [BitVec.toNat_ofInt] at hword

theorem bitOr_emod (n m : Nat) : (bitOr n m % 2 ^ 32).toNat = (n ||| m) % 2 ^ 32 := by
  rw [bitOr, toInt_emod, BitVec.toNat_or, toNat_toInt32, toNat_toInt32, ← Nat.or_mod_two_pow]

end Js

end BrowsercoreHttp2
