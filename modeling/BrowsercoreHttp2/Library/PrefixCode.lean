import Mathlib.Data.List.Infix
import BrowsercoreHttp2.Library.Bits

/-!
# Prefix codes

A finite list of rows, each carrying a nonempty code word, such that no word is a prefix of another
row's. A bit string then starts with the word of at most one row, so reading the row off the front of a
bit string undoes writing it, and a sequence of rows is determined by the concatenation of its words.

`PrefixCode.ofIntervals` builds such a code from words given as numbers: left-aligned in a common width
the words occupy intervals, and a list whose intervals are sorted and disjoint is prefix free.
-/

namespace BrowsercoreHttp2

structure PrefixCode (ρ : Type) where
  rows : List ρ
  word : ρ → List Bool
  ne_nil : ∀ r ∈ rows, word r ≠ []
  prefixFree : ∀ r ∈ rows, ∀ r' ∈ rows, word r <+: word r' → r = r'

namespace PrefixCode

variable {ρ : Type} (c : PrefixCode ρ)

/-- The row whose word starts the bit string. -/
def read (bs : List Bool) : Option ρ := c.rows.find? fun r => (c.word r).isPrefixOf bs

def write (rs : List ρ) : List Bool := rs.flatMap c.word

@[simp] theorem write_nil : c.write [] = [] := rfl

@[simp] theorem write_cons (r : ρ) (rs : List ρ) : c.write (r :: rs) = c.word r ++ c.write rs := rfl

theorem eq_of_prefix {r r' : ρ} {bs : List Bool} (hr : r ∈ c.rows) (hr' : r' ∈ c.rows)
    (h : c.word r <+: bs) (h' : c.word r' <+: bs) : r = r' := by
  rcases Nat.le_total (c.word r).length (c.word r').length with hle | hle
  · exact c.prefixFree r hr r' hr' (List.prefix_of_prefix_length_le h h' hle)
  · exact (c.prefixFree r' hr' r hr (List.prefix_of_prefix_length_le h' h hle)).symm

private theorem prefix_of_find? {bs : List Bool} {r : ρ} (h : c.read bs = some r) : c.word r <+: bs :=
  List.isPrefixOf_iff_prefix.mp (List.find?_some (p := fun q => (c.word q).isPrefixOf bs) h)

theorem read_eq_some_iff {bs : List Bool} {r : ρ} : c.read bs = some r ↔ r ∈ c.rows ∧ c.word r <+: bs := by
  constructor
  · intro h
    exact ⟨List.mem_of_find?_eq_some h, c.prefix_of_find? h⟩
  · rintro ⟨hmem, hprefix⟩
    cases hread : c.read bs with
    | none =>
        have := List.find?_eq_none.mp hread r hmem
        exact absurd (List.isPrefixOf_iff_prefix.mpr hprefix) this
    | some r' =>
        rw [c.eq_of_prefix (List.mem_of_find?_eq_some hread) hmem (c.prefix_of_find? hread) hprefix]

theorem read_write_cons {r : ρ} (hr : r ∈ c.rows) (bs : List Bool) : c.read (c.word r ++ bs) = some r :=
  c.read_eq_some_iff.mpr ⟨hr, List.prefix_append _ _⟩

end PrefixCode

/-! ### Codes given by numbers -/

/-- The first of the `width`-bit numbers that start with a word of `w` bits spelling `n`. -/
def wordFirst (width w n : Nat) : Nat := n <<< (width - w)

/-- The first `width`-bit number past those that start with the word. -/
def wordPast (width w n : Nat) : Nat := (n + 1) <<< (width - w)

theorem wordFirst_lt_past (width w n : Nat) : wordFirst width w n < wordPast width w n := by
  simp only [wordFirst, wordPast, Nat.shiftLeft_eq]
  exact Nat.mul_lt_mul_of_pos_right (Nat.lt_succ_self n) (Nat.two_pow_pos _)

theorem word_interval_of_shift {width v w m : Nat} (hvw : v ≤ w) (hw : w ≤ width) :
    wordFirst width v (m >>> (w - v)) ≤ wordFirst width w m ∧ wordFirst width w m < wordPast width v (m >>> (w - v)) := by
  have hsplit : width - v = (w - v) + (width - w) := by omega
  simp only [wordFirst, wordPast, Nat.shiftLeft_eq, Nat.shiftRight_eq_div_pow, hsplit, Nat.pow_add, ← Nat.mul_assoc]
  constructor
  · exact Nat.mul_le_mul_right _ (Nat.div_mul_le_self m _)
  · have hlt : m < (m / 2 ^ (w - v) + 1) * 2 ^ (w - v) := by
      rw [Nat.add_mul, Nat.one_mul]
      exact Nat.lt_div_mul_add (Nat.two_pow_pos _)
    exact Nat.mul_lt_mul_of_pos_right hlt (Nat.two_pow_pos _)

/-- Rows sorted by their intervals, each interval ending before the next begins. -/
def sortedIntervals {ρ : Type} (width : Nat) (size code : ρ → Nat) : List ρ → Bool
  | r :: r' :: rest =>
      Nat.ble (wordPast width (size r) (code r)) (wordFirst width (size r') (code r')) &&
        sortedIntervals width size code (r' :: rest)
  | _ => true

theorem pairwise_of_sortedIntervals {ρ : Type} {width : Nat} {size code : ρ → Nat} {rows : List ρ}
    (h : sortedIntervals width size code rows = true) :
    rows.Pairwise fun r r' => wordPast width (size r) (code r) ≤ wordFirst width (size r') (code r') := by
  induction rows with
  | nil => exact .nil
  | cons r rest ih =>
      cases rest with
      | nil => simp
      | cons r' rest =>
          simp only [sortedIntervals, Bool.and_eq_true, Nat.ble_eq] at h
          have htail := ih h.2
          refine List.pairwise_cons.mpr ⟨fun q hq => ?_, htail⟩
          rcases List.mem_cons.mp hq with rfl | hq
          · exact h.1
          · exact h.1.trans ((wordFirst_lt_past _ _ _).le.trans (List.rel_of_pairwise_cons htail hq))

theorem ordered_of_ne {ρ : Type} {R : ρ → ρ → Prop} {rows : List ρ} (h : rows.Pairwise R) {r r' : ρ}
    (hr : r ∈ rows) (hr' : r' ∈ rows) (hne : r ≠ r') : R r r' ∨ R r' r := by
  obtain ⟨i, hi, rfl⟩ := List.mem_iff_getElem.mp hr
  obtain ⟨j, hj, rfl⟩ := List.mem_iff_getElem.mp hr'
  rcases Nat.lt_trichotomy i j with hij | rfl | hij
  · exact .inl (List.pairwise_iff_getElem.mp h i j hi hj hij)
  · exact absurd rfl hne
  · exact .inr (List.pairwise_iff_getElem.mp h j i hj hi hij)

/-- A list with sorted disjoint intervals, in any order, is a prefix code. -/
def PrefixCode.ofIntervals {ρ : Type} (width : Nat) (size code : ρ → Nat) (rows sorted : List ρ)
    (hperm : sorted.Perm rows) (hsorted : sortedIntervals width size code sorted = true)
    (hsize : ∀ r ∈ rows, 0 < size r ∧ size r ≤ width) (hcode : ∀ r ∈ rows, code r < 2 ^ size r) : PrefixCode ρ where
  rows := rows
  word r := bitsOf (size r) (code r)
  ne_nil r hr h := by
    have := congrArg List.length h
    simp only [bitsOf_length, List.length_nil] at this
    exact absurd this (by have := hsize r hr; omega)
  prefixFree r hr r' hr' h := by
    obtain ⟨hle, hshift⟩ := (bitsOf_prefix_iff (hcode r hr) (hcode r' hr')).mp h
    obtain ⟨hfirst, hpast⟩ := word_interval_of_shift (m := code r') hle (hsize r' hr').2
    rw [← hshift] at hfirst hpast
    by_contra hne
    rcases ordered_of_ne (pairwise_of_sortedIntervals hsorted) (hperm.mem_iff.mpr hr) (hperm.mem_iff.mpr hr') hne with hbefore | hafter
    · omega
    · have := wordFirst_lt_past width (size r') (code r')
      omega

end BrowsercoreHttp2
