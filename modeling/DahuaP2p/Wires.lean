import Mathlib.Algebra.BigOperators.Group.List.Basic
import Mathlib.Algebra.Order.BigOperators.Ring.List
import Mathlib.Data.List.Perm.Basic

/-! # Unreliable wires

A general library for messages that go one way over a network which may lose them, deliver them
late and out of order, and deliver copies of them.

A `Wire` has the messages under way and a log of what became of the others.  No message comes from
nowhere and none disappears without being delivered or lost: that is a part of every wire
(`conserved`, `genuine`), so that any weight of messages is in balance (`Wire.balance`). -/

namespace Wires

/-- The messages under way, and those that were sent, delivered, lost and copied so far. -/
structure Wire (α : Type) where
  flight : List α
  sent : List α
  delivered : List α
  lost : List α
  copied : List α
  conserved : (sent ++ copied).Perm (delivered ++ (lost ++ flight))
  genuine : ∀ x ∈ copied, x ∈ sent

/-- What the network does with a message. -/
inductive Fate where
  | deliver
  | lose
  | copy
deriving DecidableEq, Repr

namespace Wire

variable {α : Type} (w : Wire α)

/-- A wire that was not used yet. -/
def unused : Wire α where
  flight := []
  sent := []
  delivered := []
  lost := []
  copied := []
  conserved := .nil
  genuine := nofun

/-- A new message sets out. -/
def send (x : α) : Wire α where
  flight := w.flight ++ [x]
  sent := w.sent ++ [x]
  delivered := w.delivered
  lost := w.lost
  copied := w.copied
  conserved := by
    have hsent : (w.sent ++ [x] ++ w.copied).Perm (w.sent ++ w.copied ++ [x]) := by
      rw [List.append_assoc, List.append_assoc]
      exact List.perm_append_comm.append_left w.sent
    refine hsent.trans ((w.conserved.append_right [x]).trans ?_)
    rw [List.append_assoc, List.append_assoc]
  genuine y hy := List.mem_append_left [x] (w.genuine y hy)

theorem sent_of_logged {x : α} (h : x ∈ w.delivered ++ (w.lost ++ w.flight)) : x ∈ w.sent := by
  rcases List.mem_append.mp (w.conserved.mem_iff.mpr h) with hsent | hcopied
  · exact hsent
  · exact w.genuine x hcopied

theorem sent_of_flight {x : α} (h : x ∈ w.flight) : x ∈ w.sent :=
  w.sent_of_logged (List.mem_append_right _ (List.mem_append_right _ h))

theorem sent_of_delivered {x : α} (h : x ∈ w.delivered) : x ∈ w.sent :=
  w.sent_of_logged (List.mem_append_left _ h)

/-- The message at some place leaves it for the end of a log. -/
theorem perm_append_eraseIdx {l : List α} {i : ℕ} {x : α} (h : l[i]? = some x) :
    l.Perm (x :: l.eraseIdx i) := by
  obtain ⟨hi, rfl⟩ := List.getElem?_eq_some_iff.mp h
  exact (List.getElem_cons_eraseIdx_perm hi).symm

/-- The message `x` at place `i` arrives. -/
def deliver (i : ℕ) (x : α) (h : w.flight[i]? = some x) : Wire α where
  flight := w.flight.eraseIdx i
  sent := w.sent
  delivered := w.delivered ++ [x]
  lost := w.lost
  copied := w.copied
  conserved := by
    refine w.conserved.trans ?_
    rw [List.append_assoc]
    refine List.Perm.append_left w.delivered ?_
    exact ((perm_append_eraseIdx h).append_left w.lost).trans List.perm_middle
  genuine := w.genuine

/-- The message `x` at place `i` is lost. -/
def lose (i : ℕ) (x : α) (h : w.flight[i]? = some x) : Wire α where
  flight := w.flight.eraseIdx i
  sent := w.sent
  delivered := w.delivered
  lost := w.lost ++ [x]
  copied := w.copied
  conserved := by
    refine w.conserved.trans (List.Perm.append_left w.delivered ?_)
    rw [List.append_assoc]
    exact (perm_append_eraseIdx h).append_left w.lost
  genuine := w.genuine

/-- A copy of the message `x` at place `i` sets out. -/
def copy (i : ℕ) (x : α) (h : w.flight[i]? = some x) : Wire α where
  flight := w.flight ++ [x]
  sent := w.sent
  delivered := w.delivered
  lost := w.lost
  copied := w.copied ++ [x]
  conserved := by
    rw [← List.append_assoc, ← List.append_assoc, ← List.append_assoc, List.append_assoc _ w.lost]
    exact w.conserved.append_right [x]
  genuine y hy := by
    rcases List.mem_append.mp hy with hold | hnew
    · exact w.genuine y hold
    · rw [List.mem_singleton.mp hnew]
      exact w.sent_of_flight (List.mem_of_getElem? h)

/-- The wire after the network has met the message `x` at place `i`. -/
def meet (i : ℕ) (x : α) (h : w.flight[i]? = some x) : Fate → Wire α
  | .deliver => w.deliver i x h
  | .lose => w.lose i x h
  | .copy => w.copy i x h

@[simp] theorem meet_sent {i : ℕ} {x : α} (h : w.flight[i]? = some x) (f : Fate) :
    (w.meet i x h f).sent = w.sent := by
  cases f <;> rfl

theorem meet_delivered {i : ℕ} {x : α} (h : w.flight[i]? = some x) {f : Fate}
    (hf : f ≠ .deliver) : (w.meet i x h f).delivered = w.delivered := by
  cases f with
  | deliver => exact absurd rfl hf
  | lose => rfl
  | copy => rfl

/-- The weight of some messages. -/
def weight (f : α → ℕ) (l : List α) : ℕ := (l.map f).sum

@[simp] theorem weight_append (f : α → ℕ) (l l' : List α) :
    weight f (l ++ l') = weight f l + weight f l' := by
  simp [weight]

@[simp] theorem weight_singleton (f : α → ℕ) (x : α) : weight f [x] = f x := by
  simp [weight]

/-- **Nothing comes from nowhere, and nothing disappears.** -/
theorem balance (f : α → ℕ) :
    weight f w.sent + weight f w.copied =
      weight f w.delivered + weight f w.lost + weight f w.flight := by
  have hsum : weight f (w.sent ++ w.copied) = weight f (w.delivered ++ (w.lost ++ w.flight)) :=
    (w.conserved.map f).sum_eq
  simpa [Nat.add_assoc] using hsum

end Wire

end Wires
