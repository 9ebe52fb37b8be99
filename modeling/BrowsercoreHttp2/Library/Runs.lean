import Mathlib.Data.List.Induction

/-!
# Runs

A deterministic system takes one step for each input it is given. This module is about conditions that
every step of a run meets, each on the state it is taken in, and about what such runs keep.

A view of the states that goes through steps of its own hides the inputs on which it stays where it is: a
run shows the same through the view as the run of the other inputs.
-/

namespace BrowsercoreHttp2

variable {σ α : Type} {step : σ → α → σ} {Q : σ → α → Prop} {s : σ}

/-- Every step of a run meets a condition on the state it is taken in and its input. -/
def Throughout (step : σ → α → σ) (Q : σ → α → Prop) (s : σ) : List α → Prop
  | [] => True
  | a :: inputs => Q s a ∧ Throughout step Q (step s a) inputs

theorem throughout_append {inputs inputs' : List α} :
    Throughout step Q s (inputs ++ inputs') ↔ Throughout step Q s inputs ∧ Throughout step Q (inputs.foldl step s) inputs' := by
  induction inputs generalizing s with
  | nil => rw [List.nil_append, Throughout, true_and, List.foldl_nil]
  | cons a inputs ih => rw [List.cons_append, Throughout, Throughout, ih, and_assoc, List.foldl_cons]

theorem throughout_concat {inputs : List α} {a : α} :
    Throughout step Q s (inputs ++ [a]) ↔ Throughout step Q s inputs ∧ Q (inputs.foldl step s) a := by
  rw [throughout_append, Throughout, Throughout, and_true]

/-- A run meets a condition throughout if what it reaches shows that each step met it. -/
theorem throughout_of_reached {P : List α → Prop} {inputs : List α} (hreached : ∀ before after, inputs = before ++ after → P before)
    (hstep : ∀ before a, P (before ++ [a]) → Q (before.foldl step s) a) : Throughout step Q s inputs := by
  induction inputs using List.reverseRecOn with
  | nil => trivial
  | append_singleton inputs a ih =>
      have hbefore := ih fun before after hsplit => hreached before (after ++ [a]) (by rw [hsplit, List.append_assoc])
      exact throughout_concat.mpr ⟨hbefore, hstep inputs a (hreached (inputs ++ [a]) [] (List.append_nil _).symm)⟩

/-- An invariant of the steps that meet the condition holds after every run that meets it. -/
theorem Throughout.invariant {I : σ → Prop} {inputs : List α} (h : Throughout step Q s inputs)
    (hstep : ∀ s a, I s → Q s a → I (step s a)) (hs : I s) : I (inputs.foldl step s) := by
  induction inputs generalizing s with
  | nil => exact hs
  | cons a inputs ih => exact ih h.2 (hstep s a hs h.1)

/-- Two conditions that agree where an invariant holds are met by the same runs. -/
theorem throughout_congr {I : σ → Prop} {Q' : σ → α → Prop} {inputs : List α} (hs : I s) (h : ∀ s a, I s → (Q s a ↔ Q' s a))
    (hstep : ∀ s a, I s → Q s a → I (step s a)) : Throughout step Q s inputs ↔ Throughout step Q' s inputs := by
  induction inputs generalizing s with
  | nil => exact Iff.rfl
  | cons a inputs ih =>
      rw [Throughout, Throughout, ← h s a hs]
      exact and_congr_right fun hmet => ih (hstep s a hs hmet)

section View

variable {β : Type} {view : σ → β} {react : β → α → β} {I : σ → Prop} {inputs : List α}

/-- A view that each step moves as the view's own step does is moved so by whole runs. -/
theorem view_foldl (hstep : ∀ s a, I s → a ∈ inputs → I (step s a) ∧ view (step s a) = react (view s) a) (hs : I s) :
    view (inputs.foldl step s) = inputs.foldl react (view s) := by
  induction inputs generalizing s with
  | nil => rfl
  | cons a inputs ih =>
      obtain ⟨hkept, hview⟩ := hstep s a hs List.mem_cons_self
      rw [List.foldl_cons, List.foldl_cons, ← hview]
      exact ih (fun s b hb hmem => hstep s b hb (List.mem_cons_of_mem a hmem)) hkept

/-- Inputs on which the view stays where it is can be left out. -/
theorem view_foldl_filter {visible : α → Bool}
    (hstep : ∀ s a, I s → a ∈ inputs → I (step s a) ∧ view (step s a) = react (view s) a)
    (hhidden : ∀ b a, visible a = false → react b a = b) (hs : I s) :
    view (inputs.foldl step s) = view ((inputs.filter visible).foldl step s) := by
  have hvisible : (fun b a => if visible a then react b a else b) = react := by
    funext b a
    cases h : visible a with
    | true => rw [if_pos rfl]
    | false => rw [if_neg Bool.false_ne_true, hhidden b a h]
  have hfiltered : ∀ s a, I s → a ∈ inputs.filter visible → I (step s a) ∧ view (step s a) = react (view s) a :=
    fun s a hI hmem => hstep s a hI (List.mem_filter.mp hmem).1
  rw [view_foldl hstep hs, view_foldl hfiltered hs, List.foldl_filter, hvisible]

end View

end BrowsercoreHttp2
