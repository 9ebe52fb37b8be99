import Mathlib.Data.List.Forall2
import Mathlib.Data.List.Infix

/-!
# Two windows onto one history

Two parties that record the same things, newest first, and forget old ones each at its own pace. Where both
still remember, they remember the same, entry by entry up to a relation.
-/

namespace BrowsercoreHttp2

/-- The newest entries of two histories that match entry by entry. -/
def SharedHistory {α β : Type} (rel : α → β → Prop) (xs : List α) (ys : List β) : Prop :=
  ∃ added added', List.Forall₂ rel added added' ∧ xs <+: added ∧ ys <+: added'

namespace SharedHistory

variable {α β : Type} {rel : α → β → Prop} {xs xs' : List α} {ys ys' : List β}

theorem of_nil {r : α → α → Prop} (hrefl : ∀ x, r x x) (xs : List α) : SharedHistory r [] xs :=
  ⟨xs, xs, List.forall₂_same.mpr fun x _ => hrefl x, List.nil_prefix, List.prefix_rfl⟩

theorem cons (h : SharedHistory rel xs ys) {x : α} {y : β} (hxy : rel x y) : SharedHistory rel (x :: xs) (y :: ys) := by
  obtain ⟨added, added', hmatch, hxs, hys⟩ := h
  exact ⟨x :: added, y :: added', .cons hxy hmatch, (List.prefix_cons_inj x).mpr hxs, (List.prefix_cons_inj y).mpr hys⟩

theorem forget (h : SharedHistory rel xs ys) (hxs : xs' <+: xs) (hys : ys' <+: ys) : SharedHistory rel xs' ys' := by
  obtain ⟨added, added', hmatch, hadded, hadded'⟩ := h
  exact ⟨added, added', hmatch, hxs.trans hadded, hys.trans hadded'⟩

theorem get (h : SharedHistory rel xs ys) {i : Nat} {x : α} {y : β} (hx : xs[i]? = some x) (hy : ys[i]? = some y) : rel x y := by
  obtain ⟨added, added', hmatch, ⟨older, rfl⟩, ⟨older', rfl⟩⟩ := h
  obtain ⟨hlt, rfl⟩ := List.getElem?_eq_some_iff.mp hx
  obtain ⟨hlt', rfl⟩ := List.getElem?_eq_some_iff.mp hy
  have hlonger : i < (xs ++ older).length := by
    rw [List.length_append]
    omega
  have hlonger' : i < (ys ++ older').length := by
    rw [List.length_append]
    omega
  have hrel := hmatch.get hlonger hlonger'
  simp only [List.get_eq_getElem, List.getElem_append_left hlt, List.getElem_append_left hlt'] at hrel
  exact hrel

end SharedHistory

end BrowsercoreHttp2
