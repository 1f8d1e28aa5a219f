import Mathlib.Data.Set.Function
import Mathlib.Logic.Function.Basic

/-! # Boards that wake their readers

A *board* shows a value for every key, and beside it a channel that nobody sends on.  Who replaces
the value closes the channel and puts up a new one (`Board.post`); who waits for a change takes
down value and channel together and waits until the channel is closed.

* `Board.Valid` : on the keys in use no two channels are the same and none is closed, so `post`
  never closes a channel twice (`Board.Valid.posts`).
* `Board.Seen` : what was taken down is what the board still shows, or the channel is closed.  This
  survives every change of the board (`Board.Seen.posts`, `Board.Seen.add`): no wake-up is lost. -/

namespace Broadcast

variable {κ α : Type*}

/-- Channels are numbered in the order they are made. -/
structure Board (κ α : Type*) where
  count : ℕ
  closed : ℕ → Bool
  value : κ → α
  chan : κ → ℕ

namespace Board

/-- Value and channel of a key were taken down earlier. -/
def Seen (b : Board κ α) (k : κ) (v : α) (i : ℕ) : Prop :=
  v = b.value k ∧ i = b.chan k ∨ b.closed i = true

/-- The channels of the keys `K`, which are in use. -/
structure Valid (b : Board κ α) (K : Set κ) : Prop where
  lt : ∀ k ∈ K, b.chan k < b.count
  inj : Set.InjOn b.chan K
  isOpen : ∀ k ∈ K, b.closed (b.chan k) = false
  unused : ∀ i, b.count ≤ i → b.closed i = false

/-- Wake those who wait for a key. -/
def close (b : Board κ α) (k : κ) : Board κ α :=
  { b with closed := Function.update b.closed (b.chan k) true }

variable [DecidableEq κ]

/-- A key comes into use. -/
def add (b : Board κ α) (k : κ) (v : α) : Board κ α :=
  { b with
    count := b.count + 1
    value := Function.update b.value k v
    chan := Function.update b.chan k b.count }

/-- Replace a value. -/
def post (b : Board κ α) (k : κ) (v : α) : Board κ α := (b.close k).add k v

/-- Replace several values, one after the other. -/
def posts (b : Board κ α) (ps : List (κ × α)) : Board κ α :=
  ps.foldl (fun b p => b.post p.1 p.2) b

variable {b : Board κ α} {K : Set κ} {k l : κ} {v u : α} {i : ℕ} {ps : List (κ × α)}

theorem Valid.add (h : b.Valid K) (hk : k ∉ K) : (b.add k v).Valid (insert k K) := by
  -- the new channel is above all others
  have hold : ∀ j ∈ K, (b.add k v).chan j = b.chan j := fun j hj =>
    Function.update_of_ne (ne_of_mem_of_not_mem hj hk) _ _
  have hnew : (b.add k v).chan k = b.count := Function.update_self _ _ _
  have hne : ∀ j ∈ K, (b.add k v).chan j ≠ b.count := fun j hj => by
    rw [hold j hj]
    exact (h.lt j hj).ne
  refine ⟨fun j hj => ?_, fun j hj j' hj' he => ?_, fun j hj => ?_, fun i hi => ?_⟩
  · rcases hj with rfl | hj
    · rw [hnew]
      exact Nat.lt_succ_self _
    · rw [hold j hj]
      exact Nat.lt_succ_of_lt (h.lt j hj)
  · rcases hj with rfl | hj <;> rcases hj' with rfl | hj'
    · rfl
    · exact absurd (he.symm.trans hnew) (hne j' hj')
    · exact absurd (he.trans hnew) (hne j hj)
    · rw [hold j hj, hold j' hj'] at he
      exact h.inj hj hj' he
  · rcases hj with rfl | hj
    · rw [hnew]
      exact h.unused _ le_rfl
    · rw [hold j hj]
      exact h.isOpen j hj
  · exact h.unused i (Nat.le_of_succ_le hi)

omit [DecidableEq κ] in
theorem Valid.close (h : b.Valid K) (hk : k ∈ K) : (b.close k).Valid (K \ {k}) := by
  have hother : ∀ i, i ≠ b.chan k → (b.close k).closed i = b.closed i := fun i hi =>
    Function.update_of_ne hi _ _
  refine ⟨fun j hj => h.lt j hj.1, h.inj.mono Set.sdiff_subset, fun j hj => ?_, fun i hi => ?_⟩
  · have hne : b.chan j ≠ b.chan k := fun he => hj.2 (h.inj hj.1 hk he)
    exact (hother _ hne).trans (h.isOpen j hj.1)
  · have hne : i ≠ b.chan k := (lt_of_lt_of_le (h.lt k hk) hi).ne'
    exact (hother i hne).trans (h.unused i hi)

theorem Valid.post (h : b.Valid K) (hk : k ∈ K) : (b.post k v).Valid K := by
  have hadd := (h.close hk).add (v := v) (fun hmem => hmem.2 rfl)
  rwa [Set.insert_sdiff_singleton, Set.insert_eq_of_mem hk] at hadd

theorem Valid.posts (h : b.Valid K) (hps : ∀ p ∈ ps, p.1 ∈ K) : (b.posts ps).Valid K := by
  induction ps generalizing b with
  | nil => exact h
  | cons p ps ih =>
      exact ih (h.post (hps p List.mem_cons_self)) fun q hq => hps q (List.mem_cons_of_mem _ hq)

theorem Seen.add (h : b.Seen k v i) (hkl : k ≠ l) : (b.add l u).Seen k v i := by
  rcases h with ⟨hv, hi⟩ | hc
  · left
    rw [hv, hi]
    exact ⟨(Function.update_of_ne hkl _ _).symm, (Function.update_of_ne hkl _ _).symm⟩
  · exact Or.inr hc

theorem Seen.post (h : b.Seen k v i) : (b.post l u).Seen k v i := by
  by_cases hil : i = b.chan l
  · right
    rw [hil]
    exact Function.update_self _ _ _
  · have hclose : (b.close l).Seen k v i := by
      rcases h with hshown | hc
      · exact Or.inl hshown
      · exact Or.inr ((Function.update_of_ne hil _ _).trans hc)
    by_cases hkl : k = l
    · rcases hclose with ⟨_, hi⟩ | hc
      · exact absurd (hkl ▸ hi) hil
      · exact Or.inr hc
    · exact hclose.add hkl

theorem Seen.posts (h : b.Seen k v i) : (b.posts ps).Seen k v i := by
  induction ps generalizing b with
  | nil => exact h
  | cons p ps ih => exact ih h.post

end Board

end Broadcast
