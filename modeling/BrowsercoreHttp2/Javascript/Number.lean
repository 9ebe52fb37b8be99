import Mathlib.Data.Nat.Log
import Mathlib.Data.Rat.Defs
import Mathlib.Tactic.Ring
import Mathlib.Tactic.NormNum
import Mathlib.Tactic.Positivity
import Mathlib.Tactic.FieldSimp
import Mathlib.Data.Rat.Cast.Defs

/-!
# JavaScript numbers

The two uses of a JavaScript number that exact arithmetic would get wrong. `JsNat` is a number built up
by additions and multiplications of non-negative integers: past `2^53` it is rounded, past `2^1024` it
is `Infinity`, and `0 * Infinity` is `NaN`, on which every comparison is false. `Js.number` is the
global `Number` applied to a string.

Both round to the nearest double, ties to even. Integers below `2^53` are exact.
-/

namespace BrowsercoreHttp2

namespace Js

/-- The integer nearest to `num / den`, ties to even. -/
def roundHalfEven (num den : Nat) : Nat :=
  let q := num / den
  let r := num % den
  if den < 2 * r ∨ 2 * r = den ∧ q % 2 = 1 then q + 1 else q

/-- The integers up to here are doubles, and arithmetic that stays below is exact. -/
def exactBound : Nat := 2 ^ 53

/-- The first power of two past the largest double. -/
@[irreducible] def overflow : Nat := 2 ^ 1024

/-- Round an integer to 53 significant bits. -/
def roundInteger (n : Nat) : Nat :=
  if n < exactBound then n
  else
    let unit := 2 ^ (n.log2 - 52)
    roundHalfEven n unit * unit

theorem roundInteger_of_lt {n : Nat} (h : n < exactBound) : roundInteger n = n := if_pos h

end Js

/-- A non-negative integral JavaScript number, or one of the two values such arithmetic can end in. -/
inductive JsNat where
  | nan
  | infinity
  | finite (n : Nat)
  deriving DecidableEq

namespace JsNat

def ofNat (n : Nat) : JsNat :=
  let rounded := Js.roundInteger n
  if rounded < Js.overflow then .finite rounded else .infinity

/-- `2 ** e`. -/
def twoPow (e : Nat) : JsNat := if e < 1024 then .finite (2 ^ e) else .infinity

def add : JsNat → JsNat → JsNat
  | .nan, _ | _, .nan => .nan
  | .infinity, _ | _, .infinity => .infinity
  | .finite n, .finite m => ofNat (n + m)

def mul : JsNat → JsNat → JsNat
  | .nan, _ | _, .nan => .nan
  | .infinity, .finite 0 | .finite 0, .infinity => .nan
  | .infinity, _ | _, .infinity => .infinity
  | .finite n, .finite m => ofNat (n * m)

/-- `a < b`, false as soon as one side is `NaN`. -/
def lt : JsNat → JsNat → Bool
  | .nan, _ | _, .nan => false
  | .infinity, _ => false
  | .finite _, .infinity => true
  | .finite n, .finite m => n < m

/-- `a <= b`, false as soon as one side is `NaN`. -/
def le : JsNat → JsNat → Bool
  | .nan, _ | _, .nan => false
  | _, .infinity => true
  | .infinity, .finite _ => false
  | .finite n, .finite m => n ≤ m

theorem ofNat_of_lt {n : Nat} (h : n < Js.exactBound) : ofNat n = .finite n := by
  have hlt : n < Js.overflow := h.trans (by decide +kernel)
  simp [ofNat, Js.roundInteger, h, hlt]

theorem twoPow_of_lt {e : Nat} (h : e < 1024) : twoPow e = .finite (2 ^ e) := if_pos h

theorem add_finite {n m : Nat} (h : n + m < Js.exactBound) : add (.finite n) (.finite m) = .finite (n + m) :=
  ofNat_of_lt h

theorem mul_finite {n m : Nat} (h : n * m < Js.exactBound) : mul (.finite n) (.finite m) = .finite (n * m) :=
  ofNat_of_lt h

end JsNat

namespace Js

/-- The value of `Number(s)`. Negative zero is zero here. -/
inductive Number where
  | nan
  | infinity (negative : Bool)
  | finite (value : Rat)
  deriving DecidableEq

/-- The double nearest to `num / den`. -/
def toDouble (num den : Nat) : Number :=
  if num = 0 then .finite 0
  else
    let guess : Int := num.log2 - den.log2
    let below : Bool := if 0 ≤ guess then num < den * 2 ^ guess.toNat else num * 2 ^ (-guess).toNat < den
    let exponent : Int := if below then guess - 1 else guess
    -- subnormal doubles share the smallest unit
    let unit : Int := max (exponent - 52) (-1074)
    if 0 ≤ unit then
      let value := roundHalfEven num (den * 2 ^ unit.toNat) * 2 ^ unit.toNat
      if value < overflow then .finite value else .infinity false
    else .finite (mkRat (roundHalfEven (num * 2 ^ (-unit).toNat) den) (2 ^ (-unit).toNat))

def Number.negate : Number → Number
  | .nan => .nan
  | .infinity negative => .infinity !negative
  | .finite value => .finite (-value)

/-- The WhiteSpace and LineTerminator characters `Number` trims. -/
def isSpace (c : Char) : Bool :=
  c.toNat ∈ [0x9, 0xA, 0xB, 0xC, 0xD, 0x20, 0xA0, 0x1680, 0x2028, 0x2029, 0x202F, 0x205F, 0x3000, 0xFEFF] ||
    (0x2000 ≤ c.toNat && c.toNat ≤ 0x200A)

def trim (cs : List Char) : List Char := ((cs.dropWhile isSpace).reverse.dropWhile isSpace).reverse

/-- The value of a digit in bases up to sixteen. -/
def digitValue (c : Char) : Option Nat :=
  if c.isDigit then some (c.toNat - 48)
  else if 97 ≤ c.toNat ∧ c.toNat ≤ 102 then some (c.toNat - 87)
  else if 65 ≤ c.toNat ∧ c.toNat ≤ 70 then some (c.toNat - 55)
  else none

/-- A hexadecimal, octal or binary literal after its `0x`, `0o` or `0b`. -/
def radixLiteral (base : Nat) (cs : List Char) : Number :=
  match cs.mapM fun c => (digitValue c).filter (· < base) with
  | some (d :: ds) => toDouble ((d :: ds).foldl (fun n d => base * n + d) 0) 1
  | _ => .nan

/-- The exponent part of a decimal literal: nothing, or `e` with an optionally signed integer. -/
def exponentPart (cs : List Char) : Option Int :=
  let digits (ds : List Char) : Option Nat :=
    if ds ≠ [] ∧ ds.all Char.isDigit then some (Nat.ofDigitChars 10 ds 0) else none
  match cs with
  | [] => some 0
  | e :: rest =>
      if e = 'e' ∨ e = 'E' then
        match rest with
        | '+' :: ds => (digits ds).map fun n => (n : Int)
        | '-' :: ds => (digits ds).map fun n => -(n : Int)
        | ds => (digits ds).map fun n => (n : Int)
      else none

def unsignedDecimal (cs : List Char) : Number :=
  if cs = "Infinity".toList then .infinity false
  else
    let whole := cs.takeWhile Char.isDigit
    let rest := cs.dropWhile Char.isDigit
    let (fraction, tail) :=
      match rest with
      | '.' :: more => (more.takeWhile Char.isDigit, more.dropWhile Char.isDigit)
      | _ => ([], rest)
    match whole ++ fraction, exponentPart tail with
    | d :: ds, some e =>
        let scale := e - fraction.length
        let mantissa := Nat.ofDigitChars 10 (d :: ds) 0
        if 0 ≤ scale then toDouble (mantissa * 10 ^ scale.toNat) 1 else toDouble mantissa (10 ^ (-scale).toNat)
    | _, _ => .nan

def decimalLiteral : List Char → Number
  | '+' :: cs => unsignedDecimal cs
  | '-' :: cs => (unsignedDecimal cs).negate
  | cs => unsignedDecimal cs

/-- `Number(s)` for a string. -/
def number (s : String) : Number :=
  match trim s.toList with
  | [] => .finite 0
  | '0' :: x :: cs =>
      if x = 'x' ∨ x = 'X' then radixLiteral 16 cs
      else if x = 'o' ∨ x = 'O' then radixLiteral 8 cs
      else if x = 'b' ∨ x = 'B' then radixLiteral 2 cs
      else decimalLiteral ('0' :: x :: cs)
  | cs => decimalLiteral cs

/-! ### Decimal strings of integers -/

theorem trim_of_no_space {cs : List Char} (h : ∀ c ∈ cs, isSpace c = false) : trim cs = cs := by
  have hdrop : ∀ l : List Char, (∀ c ∈ l, isSpace c = false) → l.dropWhile isSpace = l := by
    intro l hl
    cases l with
    | nil => rfl
    | cons c l => rw [List.dropWhile_cons, hl c (by simp)]; rfl
  rw [trim, hdrop cs h, hdrop cs.reverse (by simpa using h), List.reverse_reverse]

theorem isSpace_of_isDigit {c : Char} (h : c.isDigit = true) : isSpace c = false := by
  have hrange : 48 ≤ c.toNat ∧ c.toNat ≤ 57 := by
    rw [Char.isDigit, Bool.and_eq_true, decide_eq_true_eq, decide_eq_true_eq] at h
    exact h
  rw [Bool.eq_false_iff]
  intro hspace
  simp only [isSpace, List.mem_cons, List.not_mem_nil, or_false, Bool.or_eq_true, Bool.and_eq_true,
    decide_eq_true_eq] at hspace
  omega

/-- `Number` reads the decimal string of an integer as the double nearest to it. -/
theorem number_toString (n : Nat) : number (toString n) = toDouble n 1 := by
  have hdigits : ∀ c ∈ Nat.toDigits 10 n, c.isDigit = true := fun c hc =>
    Nat.isDigit_of_mem_toDigits (by decide) (by decide) hc
  have hlist : (toString n).toList = Nat.toDigits 10 n := Nat.toList_repr
  have htrim : trim (toString n).toList = Nat.toDigits 10 n := by
    rw [hlist]
    exact trim_of_no_space fun c hc => isSpace_of_isDigit (hdigits c hc)
  have hunsigned : unsignedDecimal (Nat.toDigits 10 n) = toDouble n 1 := by
    have htake : (Nat.toDigits 10 n).takeWhile Char.isDigit = Nat.toDigits 10 n := by
      have := @List.takeWhile_append_of_pos _ Char.isDigit _ [] hdigits
      simpa using this
    have hdrop : (Nat.toDigits 10 n).dropWhile Char.isDigit = [] := by
      have := @List.dropWhile_append_of_pos _ Char.isDigit _ [] hdigits
      simpa using this
    have hinf : Nat.toDigits 10 n ≠ "Infinity".toList := fun heq => by
      have := hdigits 'I' (by rw [heq]; decide)
      exact absurd this (by decide)
    obtain ⟨d, ds, hcons⟩ := List.exists_cons_of_ne_nil (Nat.toDigits_ne_nil (n := n) (b := 10))
    simp only [unsignedDecimal, if_neg hinf, htake, hdrop, List.append_nil, exponentPart]
    rw [hcons]
    simp only [← hcons, Nat.ofDigitChars_ten_toDigits, List.length_nil, Nat.cast_zero, Int.sub_zero, le_refl, if_true,
      Int.toNat_zero, pow_zero, Nat.mul_one]
  have hdecimal : decimalLiteral (Nat.toDigits 10 n) = toDouble n 1 := by
    rw [← hunsigned, decimalLiteral.eq_def]
    split
    · rename_i hplus
      exact absurd (hdigits '+' (by rw [hplus]; simp)) (by decide)
    · rename_i hminus
      exact absurd (hdigits '-' (by rw [hminus]; simp)) (by decide)
    · rfl
  rw [number, htrim]
  split
  · rename_i hnil
    exact absurd hnil Nat.toDigits_ne_nil
  · rename_i x cs hcons
    have hx : x.isDigit = true := hdigits x (by rw [hcons]; simp)
    have hletter : ∀ y : Char, y.isDigit = false → x ≠ y := fun y hy hxy => by simp [← hxy, hx] at hy
    simp only [hletter 'x' (by decide), hletter 'X' (by decide), hletter 'o' (by decide), hletter 'O' (by decide),
      hletter 'b' (by decide), hletter 'B' (by decide), or_self, if_false]
    rw [← hcons, hdecimal]
  · exact hdecimal

example : number "200" = .finite 200 := by decide +kernel

end Js

end BrowsercoreHttp2
