import Mathlib.Algebra.BigOperators.Group.List.Basic
import Mathlib.Algebra.Order.Ring.Int

/-!
# Two levels of credit

Whoever spends draws on two balances at once: one that all share and one of its own. A private balance
is opened with an initial credit, and changing that initial credit later moves every private balance by
the difference. The balances after any history are the grants less what was spent; a private balance
counts from the moment it was opened.
-/

namespace BrowsercoreHttp2

structure Credit (κ : Type) where
  shared : Int
  initial : Int
  own : κ → Int

inductive CreditEvent (κ : Type) where
  | grantShared (amount : Int)
  | grantOwn (k : κ) (amount : Int)
  | setInitial (amount : Int)
  | opened (k : κ)
  | spend (k : κ) (amount : Nat)

variable {κ : Type}

/-! ### What an event adds and takes -/

namespace CreditEvent

def sharedGrant : CreditEvent κ → Int
  | .grantShared amount => amount
  | _ => 0

def spent : CreditEvent κ → Int
  | .spend _ amount => amount
  | _ => 0

variable [DecidableEq κ]

def ownGrant (k : κ) : CreditEvent κ → Int
  | .grantOwn j amount => if j = k then amount else 0
  | _ => 0

def spentBy (k : κ) : CreditEvent κ → Int
  | .spend j amount => if j = k then amount else 0
  | _ => 0

end CreditEvent

namespace Credit

variable [DecidableEq κ]

def post (c : Credit κ) : CreditEvent κ → Credit κ
  | .grantShared amount => { c with shared := c.shared + amount }
  | .grantOwn k amount => { c with own := Function.update c.own k (c.own k + amount) }
  | .setInitial amount => { c with initial := amount, own := fun j => c.own j + (amount - c.initial) }
  | .opened k => { c with own := Function.update c.own k c.initial }
  | .spend k amount => { c with shared := c.shared - amount, own := Function.update c.own k (c.own k - amount) }

def postAll (c : Credit κ) (events : List (CreditEvent κ)) : Credit κ := events.foldl post c

@[simp] theorem postAll_nil (c : Credit κ) : c.postAll [] = c := rfl

@[simp] theorem postAll_cons (c : Credit κ) (event : CreditEvent κ) (events : List (CreditEvent κ)) :
    c.postAll (event :: events) = (c.post event).postAll events := rfl

theorem postAll_append (c : Credit κ) (events events' : List (CreditEvent κ)) :
    c.postAll (events ++ events') = (c.postAll events).postAll events' := List.foldl_append

/-! ### Balances -/

theorem post_shared (c : Credit κ) (event : CreditEvent κ) :
    (c.post event).shared = c.shared + event.sharedGrant - event.spent := by
  cases event <;> simp [post, CreditEvent.sharedGrant, CreditEvent.spent]

/-- What a private balance holds beyond the initial credit moves by grants and spending alone. -/
theorem post_own (c : Credit κ) {k : κ} {event : CreditEvent κ} (hopened : event ≠ .opened k) :
    (c.post event).own k - (c.post event).initial = c.own k - c.initial + event.ownGrant k - event.spentBy k := by
  cases event with
  | grantShared amount => simp [post, CreditEvent.ownGrant, CreditEvent.spentBy]
  | grantOwn j amount =>
      by_cases hj : k = j
      · subst hj
        simp only [post, CreditEvent.ownGrant, CreditEvent.spentBy, Function.update_self, if_pos]
        omega
      · simp [post, CreditEvent.ownGrant, CreditEvent.spentBy, Function.update_of_ne hj, Ne.symm hj]
  | setInitial amount =>
      simp only [post, CreditEvent.ownGrant, CreditEvent.spentBy]
      omega
  | opened j =>
      have hj : k ≠ j := fun h => hopened (h ▸ rfl)
      simp [post, CreditEvent.ownGrant, CreditEvent.spentBy, Function.update_of_ne hj]
  | spend j amount =>
      by_cases hj : k = j
      · subst hj
        simp only [post, CreditEvent.ownGrant, CreditEvent.spentBy, Function.update_self, if_pos]
        omega
      · simp [post, CreditEvent.ownGrant, CreditEvent.spentBy, Function.update_of_ne hj, Ne.symm hj]

theorem postAll_shared (c : Credit κ) (events : List (CreditEvent κ)) :
    (c.postAll events).shared =
      c.shared + (events.map CreditEvent.sharedGrant).sum - (events.map CreditEvent.spent).sum := by
  induction events generalizing c with
  | nil => simp
  | cons event events ih =>
      rw [postAll_cons, ih, post_shared]
      simp only [List.map_cons, List.sum_cons]
      omega

theorem postAll_own (c : Credit κ) {k : κ} {events : List (CreditEvent κ)} (hopened : .opened k ∉ events) :
    (c.postAll events).own k - (c.postAll events).initial =
      c.own k - c.initial + (events.map (CreditEvent.ownGrant k)).sum - (events.map (CreditEvent.spentBy k)).sum := by
  induction events generalizing c with
  | nil => simp
  | cons event events ih =>
      rw [List.mem_cons, not_or] at hopened
      rw [postAll_cons, ih _ hopened.2, post_own c (Ne.symm hopened.1)]
      simp only [List.map_cons, List.sum_cons]
      omega

/-- A balance that was opened once holds the initial credit of now, its grants, less its spending. -/
theorem own_of_opened (c : Credit κ) {k : κ} {events : List (CreditEvent κ)} (hopened : .opened k ∉ events) :
    ((c.post (.opened k)).postAll events).own k =
      ((c.post (.opened k)).postAll events).initial +
        (events.map (CreditEvent.ownGrant k)).sum - (events.map (CreditEvent.spentBy k)).sum := by
  have hbalance := postAll_own (c.post (.opened k)) hopened
  have hstart : (c.post (.opened k)).own k = (c.post (.opened k)).initial := Function.update_self _ _ _
  omega

end Credit

end BrowsercoreHttp2
