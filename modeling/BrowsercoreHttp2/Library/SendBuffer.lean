import Mathlib.Data.List.Basic
import Mathlib.Logic.Relation

/-!
# Send buffers

A writer appends to a queue and says with the last piece that it is the last. A sender takes chunks off the
front, whenever and as large as it may, and marks the chunk that empties the queue of a finished writer. No
item is lost or sent twice, and the mark goes out at most once and last. It does go out as long as something
is left to send when the writer finishes.
-/

namespace BrowsercoreHttp2

open Relation

/-- The queue, whether the writer has finished, and the chunks sent so far with their marks. -/
structure SendBuffer (α : Type) where
  queue : List α
  ended : Bool
  sent : List (List α × Bool)

namespace SendBuffer

variable {α : Type} {b b' : SendBuffer α}

def empty : SendBuffer α := ⟨[], false, []⟩

def write (b : SendBuffer α) (items : List α) (last : Bool) : SendBuffer α :=
  { b with queue := b.queue ++ items, ended := b.ended || last }

/-- Whatever is queued is given up. -/
def discard (b : SendBuffer α) : SendBuffer α := { b with queue := [], ended := false }

/-- The first `n` items go out. -/
def chunk (b : SendBuffer α) (n : Nat) : SendBuffer α :=
  { b with queue := b.queue.drop n, sent := b.sent ++ [(b.queue.take n, b.ended && n == b.queue.length)] }

inductive SendsOne : SendBuffer α → SendBuffer α → Prop
  | chunk (b : SendBuffer α) (n : Nat) (hpos : 0 < n) (hqueue : n ≤ b.queue.length) : SendsOne b (b.chunk n)

/-- Any number of chunks go out. -/
abbrev Sends : SendBuffer α → SendBuffer α → Prop := ReflTransGen SendsOne

theorem Sends.preserves {P : SendBuffer α → Prop} (hP : ∀ b b', SendsOne b b' → P b → P b') (h : Sends b b') (hb : P b) : P b' := by
  induction h with
  | refl => exact hb
  | tail _ hone ih => exact hP _ _ hone ih

/-! ### Conservation -/

/-- All that was written: what was sent and what is queued. -/
def items (b : SendBuffer α) : List α := (b.sent.map Prod.fst).flatten ++ b.queue

theorem items_write (b : SendBuffer α) (items : List α) (last : Bool) : (b.write items last).items = b.items ++ items :=
  (List.append_assoc _ _ _).symm

theorem SendsOne.items_eq (h : SendsOne b b') : b'.items = b.items := by
  cases h with
  | chunk n =>
      simp only [items, SendBuffer.chunk, List.map_append, List.flatten_append, List.map_singleton, List.flatten_singleton,
        List.append_assoc, List.take_append_drop]

theorem Sends.items_eq (h : Sends b b') : b'.items = b.items :=
  Sends.preserves (P := fun c => c.items = b.items) (fun _ _ hone hc => hone.items_eq.trans hc) h rfl

/-! ### The mark -/

/-- The writer has not finished, so no chunk is marked. -/
structure Unended (b : SendBuffer α) : Prop where
  ended : b.ended = false
  unmarked : ∀ chunk ∈ b.sent, chunk.2 = false

theorem unended_empty : (empty : SendBuffer α).Unended := ⟨rfl, fun _ h => absurd h List.not_mem_nil⟩

theorem Unended.write (h : b.Unended) (items : List α) : (b.write items false).Unended :=
  ⟨by rw [SendBuffer.write, h.ended]; rfl, h.unmarked⟩

theorem Unended.discard (h : b.Unended) : b.discard.Unended := ⟨rfl, h.unmarked⟩

theorem SendsOne.unended (hone : SendsOne b b') (h : b.Unended) : b'.Unended := by
  cases hone with
  | chunk n =>
      refine ⟨h.ended, List.forall_mem_append.mpr ⟨h.unmarked, fun chunk hmem => ?_⟩⟩
      rw [List.mem_singleton.mp hmem, h.ended]
      rfl

/-- A marked chunk has none behind it, so there is at most one. -/
def MarkedLast (sent : List (List α × Bool)) : Prop :=
  ∀ pre chunk post, sent = pre ++ chunk :: post → chunk.2 = true → post = []

/-- The mark went out last, if it went out, and then nothing is left to send. -/
structure Closed (b : SendBuffer α) : Prop where
  last : MarkedLast b.sent
  drained : (∃ chunk ∈ b.sent, chunk.2 = true) → b.queue = []

theorem Unended.closed (h : b.Unended) : b.Closed where
  last pre chunk post heq hmarked := by
    have hunmarked := h.unmarked chunk (heq ▸ List.mem_append_right pre List.mem_cons_self)
    exact absurd (hmarked.symm.trans hunmarked) (by decide)
  drained hmarked := by
    obtain ⟨chunk, hmem, hmarked⟩ := hmarked
    exact absurd (hmarked.symm.trans (h.unmarked chunk hmem)) (by decide)

theorem Closed.discard (h : b.Closed) : b.discard.Closed := ⟨h.last, fun _ => rfl⟩

theorem Unended.closed_write (h : b.Unended) (items : List α) (last : Bool) : (b.write items last).Closed where
  last := h.closed.last
  drained hmarked := by
    obtain ⟨chunk, hmem, hmarked⟩ := hmarked
    exact absurd (hmarked.symm.trans (h.unmarked chunk hmem)) (by decide)

/-- A chunk only goes out while none was marked, and if it is marked the queue is empty. -/
theorem SendsOne.closed (hone : SendsOne b b') (h : b.Closed) : b'.Closed := by
  cases hone with
  | chunk n hpos hqueue =>
      have hunmarked : ∀ chunk ∈ b.sent, chunk.2 ≠ true := by
        intro chunk hmem hmarked
        have hempty := h.drained ⟨chunk, hmem, hmarked⟩
        rw [hempty, List.length_nil] at hqueue
        omega
      constructor
      · intro pre chunk post heq hmarked
        rcases List.eq_nil_or_concat' post with hnil | ⟨front, last, rfl⟩
        · exact hnil
        · have hsplit : b.sent = pre ++ chunk :: front := by
            have hshape : pre ++ chunk :: (front ++ [last]) = (pre ++ chunk :: front) ++ [last] := by simp
            exact (List.append_inj' (heq.trans hshape) rfl).1
          exact absurd hmarked (hunmarked chunk (hsplit ▸ List.mem_append_right pre List.mem_cons_self))
      · rintro ⟨chunk, hmem, hmarked⟩
        rcases List.mem_append.mp hmem with hold | hnew
        · exact absurd hmarked (hunmarked chunk hold)
        · obtain rfl := List.mem_singleton.mp hnew
          have hall : n = b.queue.length := by
            simp only [Bool.and_eq_true, beq_iff_eq] at hmarked
            exact hmarked.2
          exact List.drop_eq_nil_of_le (Nat.le_of_eq hall.symm)

/-- The writer has finished, and the mark is out once the queue is empty. -/
structure Ending (b : SendBuffer α) : Prop where
  ended : b.ended = true
  marked : b.queue = [] → ∃ chunk ∈ b.sent, chunk.2 = true

theorem ending_write (b : SendBuffer α) {items : List α} (h : items ≠ [] ∨ b.queue ≠ []) : (b.write items true).Ending where
  ended := Bool.or_true _
  marked hempty := by
    obtain ⟨hqueue, hitems⟩ := List.append_eq_nil_iff.mp hempty
    rcases h with h | h
    · exact absurd hitems h
    · exact absurd hqueue h

theorem SendsOne.ending (hone : SendsOne b b') (h : b.Ending) : b'.Ending := by
  cases hone with
  | chunk n hpos hqueue =>
      refine ⟨h.ended, fun hempty => ⟨_, List.mem_append_right _ List.mem_cons_self, ?_⟩⟩
      have hle := List.drop_eq_nil_iff.mp hempty
      have hall : (n == b.queue.length) = true := beq_iff_eq.mpr (Nat.le_antisymm hqueue hle)
      rw [h.ended, hall]
      rfl

theorem Sends.unended (hsends : Sends b b') (h : b.Unended) : b'.Unended := Sends.preserves (fun _ _ hone => hone.unended) hsends h

theorem Sends.closed (hsends : Sends b b') (h : b.Closed) : b'.Closed := Sends.preserves (fun _ _ hone => hone.closed) hsends h

theorem Sends.ending (hsends : Sends b b') (h : b.Ending) : b'.Ending := Sends.preserves (fun _ _ hone => hone.ending) hsends h

theorem Sends.of_empty (hsends : (empty : SendBuffer α).Sends b') : b' = empty := by
  refine Sends.preserves (P := fun b => b = empty) (fun b b' hone hb => ?_) hsends rfl
  subst hb
  cases hone with
  | chunk n hpos hqueue => exact absurd hqueue (Nat.not_le_of_gt hpos)

/-! ### A whole body -/

/-- What has gone out of a body: pieces off its front, none empty, and the mark on the one that completes it. -/
structure Fragments (body : List α) (sent : List (List α × Bool)) : Prop where
  front : (sent.map Prod.fst).flatten <+: body
  nonempty : ∀ chunk ∈ sent, chunk.1 ≠ []
  last : MarkedLast sent
  marked : (∃ chunk ∈ sent, chunk.2 = true) ↔ body ≠ [] ∧ (sent.map Prod.fst).flatten = body

theorem fragments_nil (body : List α) : Fragments body [] where
  front := List.nil_prefix
  nonempty := fun _ h => absurd h List.not_mem_nil
  last := fun pre chunk post heq _ => absurd heq (by simp)
  marked := by
    refine Iff.intro (fun hmarked => ?_) fun hwhole => absurd hwhole.2.symm hwhole.1
    obtain ⟨chunk, hmem, -⟩ := hmarked
    exact absurd hmem List.not_mem_nil

theorem Fragments.eq_nil {sent : List (List α × Bool)} (h : Fragments [] sent) : sent = [] := by
  refine List.eq_nil_iff_forall_not_mem.mpr fun chunk hmem => ?_
  have hfront := List.flatten_eq_nil_iff.mp (List.prefix_nil.mp h.front) chunk.1 (List.mem_map_of_mem hmem)
  exact h.nonempty chunk hmem hfront

/-- A buffer that was handed a body and its end at once. What has not gone out of it is queued or given up. -/
structure Carries (body : List α) (b : SendBuffer α) : Prop where
  fragments : Fragments body b.sent
  queued : b.queue ≠ [] → b.ended = true ∧ b.items = body
  drained : (∃ chunk ∈ b.sent, chunk.2 = true) → b.queue = []

theorem carries_write (body : List α) : Carries body (empty.write body true) where
  fragments := fragments_nil body
  queued := fun _ => ⟨rfl, rfl⟩
  drained := fun hmarked => by
    obtain ⟨chunk, hmem, -⟩ := hmarked
    exact absurd hmem List.not_mem_nil

theorem carries_empty (body : List α) : Carries body empty where
  fragments := fragments_nil body
  queued := fun hqueue => absurd rfl hqueue
  drained := fun _ => rfl

theorem Carries.discard {body : List α} (h : b.Carries body) : b.discard.Carries body where
  fragments := h.fragments
  queued := fun hqueue => absurd rfl hqueue
  drained := fun _ => rfl

theorem SendsOne.carries {body : List α} (hone : SendsOne b b') (h : b.Carries body) : b'.Carries body := by
  cases hone with
  | chunk n hpos hqueue =>
      have hnonempty : b.queue ≠ [] := List.ne_nil_of_length_pos (Nat.lt_of_lt_of_le hpos hqueue)
      obtain ⟨hended, hitems⟩ := h.queued hnonempty
      have hclosed := (SendsOne.chunk b n hpos hqueue).closed ⟨h.fragments.last, h.drained⟩
      have hbody : (((b.chunk n).sent).map Prod.fst).flatten ++ b.queue.drop n = body :=
        (SendsOne.chunk b n hpos hqueue).items_eq.trans hitems
      have hwhole : ((((b.chunk n).sent).map Prod.fst).flatten = body) ↔ n = b.queue.length := by
        refine Iff.intro (fun heq => ?_) fun hall => ?_
        · rw [heq] at hbody
          have hrest := List.drop_eq_nil_iff.mp (List.append_right_eq_self.mp hbody)
          exact Nat.le_antisymm hqueue hrest
        · rwa [hall, List.drop_length, List.append_nil, ← hall] at hbody
      have hunmarked : ∀ chunk ∈ b.sent, chunk.2 ≠ true := fun chunk hmem hmarked => hnonempty (h.drained ⟨chunk, hmem, hmarked⟩)
      refine ⟨⟨⟨_, hbody⟩, ?_, hclosed.last, ?_⟩, fun _ => ⟨hended, hbody⟩, hclosed.drained⟩
      · refine List.forall_mem_append.mpr ⟨h.fragments.nonempty, fun chunk hmem => ?_⟩
        rw [List.mem_singleton.mp hmem]
        refine List.ne_nil_of_length_pos ?_
        rw [List.length_take]
        exact Nat.lt_min.mpr ⟨hpos, Nat.lt_of_lt_of_le hpos hqueue⟩
      · have hbodied : body ≠ [] := fun hnil => by
          rw [hnil] at hitems
          exact hnonempty (List.append_eq_nil_iff.mp hitems).2
        rw [and_iff_right hbodied, hwhole]
        refine Iff.intro (fun hmarked => ?_) fun hall => ?_
        · obtain ⟨chunk, hmem, hchunk⟩ := hmarked
          rcases List.mem_append.mp hmem with hold | hnew
          · exact absurd hchunk (hunmarked chunk hold)
          · rw [List.mem_singleton.mp hnew, Bool.and_eq_true, beq_iff_eq] at hchunk
            exact hchunk.2
        · refine ⟨_, List.mem_append_right _ List.mem_cons_self, ?_⟩
          rw [hended, Bool.true_and, beq_iff_eq]
          exact hall

theorem Sends.carries {body : List α} (hsends : Sends b b') (h : b.Carries body) : b'.Carries body :=
  Sends.preserves (fun _ _ hone => hone.carries) hsends h

end SendBuffer

end BrowsercoreHttp2
