import Mathlib.Data.List.Count
import Mathlib.Logic.Function.Basic

/-! # Resources held by variables

A small library for code that opens resources, keeps them in variables, and closes what the
variables hold when it fails.

* A `Ledger` counts how often each resource was closed, and says what each variable holds.
* In a `Balanced` ledger every resource is either closed once and not held, or not closed and held
  by one variable.  Opening a resource into an empty variable keeps this (`Balanced.opened`), and so
  does closing what a variable holds and emptying it (`Balanced.disposed`).
* From a balanced ledger the clean-up closes every resource that is not closed yet, once
  (`Balanced.cleanup`). -/

namespace Ownership

variable {κ : Type}

/-- Resources, numbered in the order of their opening, and variables that hold one or none. -/
structure Ledger (κ : Type) where
  closes : List ℕ
  held : κ → Option ℕ

namespace Ledger

def empty : Ledger κ := ⟨[], fun _ => none⟩

def closed (l : Ledger κ) (i : ℕ) : Ledger κ := { l with closes := l.closes.modify i (· + 1) }

/-- Close what the variable holds. -/
def closedHeld (l : Ledger κ) (k : κ) : Ledger κ :=
  match l.held k with
  | none => l
  | some i => l.closed i

/-- Close what the variables hold. -/
def cleanup (l : Ledger κ) (ks : List κ) : Ledger κ := ks.foldl closedHeld l

section update
variable [DecidableEq κ]

/-- A new resource, held by the variable. -/
def opened (l : Ledger κ) (k : κ) : Ledger κ :=
  ⟨l.closes ++ [0], Function.update l.held k (some l.closes.length)⟩

/-- Empty the variable. -/
def cleared (l : Ledger κ) (k : κ) : Ledger κ := { l with held := Function.update l.held k none }

end update

/-- How many of the variables hold the resource. -/
def holders (l : Ledger κ) (ks : List κ) (i : ℕ) : ℕ := ks.countP fun k => l.held k = some i

/-- Every resource is closed once or held by one variable, and not both. -/
def Balanced (l : Ledger κ) (ks : List κ) : Prop :=
  ∀ i, l.closes.getD i 0 + l.holders ks i = if i < l.closes.length then 1 else 0

variable {l : Ledger κ} {ks : List κ} {k : κ} {i j : ℕ}

theorem Balanced.empty : Balanced (empty : Ledger κ) ks := by
  intro i
  simp [Ledger.empty, holders]

theorem getD_modify (closes : List ℕ) (i j : ℕ) : (closes.modify j (· + 1)).getD i 0 =
    closes.getD i 0 + if i = j ∧ i < closes.length then 1 else 0 := by
  rw [List.getD_eq_getElem?_getD, List.getD_eq_getElem?_getD, List.getElem?_modify]
  by_cases hi : i < closes.length
  · by_cases hij : j = i
    · simp [hi, hij]
    · simp [hi, hij, Ne.symm hij]
  · simp [hi]

theorem getD_concat_zero (closes : List ℕ) (i : ℕ) :
    (closes ++ [0]).getD i 0 = closes.getD i 0 := by
  rw [List.getD_eq_getElem?_getD, List.getD_eq_getElem?_getD]
  rcases Nat.lt_trichotomy i closes.length with hi | rfl | hi
  · rw [List.getElem?_append_left hi]
  · simp
  · rw [List.getElem?_eq_none (by simpa using Nat.succ_le_of_lt hi),
      List.getElem?_eq_none (Nat.le_of_lt hi)]

theorem Balanced.lt_of_held (h : Balanced l ks) (hk : k ∈ ks) (hheld : l.held k = some i) :
    i < l.closes.length := by
  have hpos : 0 < l.holders ks i := List.countP_pos_iff.mpr ⟨k, hk, by simpa using hheld⟩
  have hi := h i
  by_contra hlt
  rw [if_neg hlt] at hi
  omega

section update
variable [DecidableEq κ]

/-- A variable of the list changes from one value to another. -/
theorem countP_update (held : κ → Option ℕ) (v : Option ℕ) (hks : ks.Nodup) (hk : k ∈ ks) (i : ℕ) :
    (ks.countP fun k' => Function.update held k v k' = some i) +
        (if held k = some i then 1 else 0) =
      (ks.countP fun k' => held k' = some i) + if v = some i then 1 else 0 := by
  induction ks with
  | nil => cases hk
  | cons k' ks ih =>
      obtain ⟨hnot, hks⟩ := List.nodup_cons.mp hks
      rw [List.countP_cons, List.countP_cons]
      by_cases hkk : k' = k
      · subst hkk
        -- the rest of the list does not have the variable
        have hrest : (ks.countP fun k => Function.update held k' v k = some i) =
            ks.countP fun k => held k = some i := by
          refine List.countP_congr fun x hx => ?_
          have hne : x ≠ k' := fun h => hnot (h ▸ hx)
          rw [Function.update_of_ne hne]
        rw [hrest, Function.update_self]
        simp only [decide_eq_true_eq]
        omega
      · have hrest := ih hks ((List.mem_cons.mp hk).resolve_left (Ne.symm hkk))
        rw [Function.update_of_ne hkk]
        omega

theorem Balanced.opened (h : Balanced l ks) (hks : ks.Nodup) (hk : k ∈ ks)
    (hnil : l.held k = none) : Balanced (l.opened k) ks := by
  intro i
  have hi := h i
  have hcount : (l.opened k).holders ks i + (if l.held k = some i then 1 else 0) =
      l.holders ks i + if some l.closes.length = some i then 1 else 0 :=
    countP_update l.held (some l.closes.length) hks hk i
  have hcloses : (l.opened k).closes.getD i 0 = l.closes.getD i 0 := getD_concat_zero _ i
  have hlen : (l.opened k).closes.length = l.closes.length + 1 := List.length_append
  rw [hnil, if_neg nofun] at hcount
  simp only [Option.some.injEq] at hcount
  rw [hcloses, hlen]
  split at hi <;> split at hcount <;> split <;> omega

/-- Emptying a variable takes one holder from what it held. -/
theorem holders_cleared (hks : ks.Nodup) (hk : k ∈ ks) (hheld : l.held k = some j) (i : ℕ) :
    l.holders ks i = (l.cleared k).holders ks i + if j = i then 1 else 0 := by
  have hcount : (l.cleared k).holders ks i + (if l.held k = some i then 1 else 0) =
      l.holders ks i + if none = some i then 1 else 0 := countP_update l.held none hks hk i
  rw [hheld, if_neg (fun h : none = some i => nomatch h)] at hcount
  simpa only [Option.some.injEq, Nat.add_zero] using hcount.symm

/-- Close what a variable holds and empty it. -/
theorem Balanced.disposed (h : Balanced l ks) (hks : ks.Nodup) (hk : k ∈ ks)
    (hheld : l.held k = some j) : Balanced ((l.closedHeld k).cleared k) ks := by
  intro i
  have hi := h i
  have hlt := h.lt_of_held hk hheld
  have hcount := holders_cleared hks hk hheld i
  have hclosed : (l.closedHeld k).cleared k =
      { l.cleared k with closes := l.closes.modify j (· + 1) } := by
    simp only [closedHeld, hheld, closed, cleared]
  have hholders : Ledger.holders { l.cleared k with closes := l.closes.modify j (· + 1) } ks i =
      (l.cleared k).holders ks i := rfl
  rw [hclosed, hholders]
  simp only [getD_modify, List.length_modify]
  split at hi <;> split at hcount <;> split <;> omega

end update

section cleanup

theorem closedHeld_held (l : Ledger κ) (k : κ) : (l.closedHeld k).held = l.held := by
  unfold closedHeld
  split <;> rfl

theorem closedHeld_length (l : Ledger κ) (k : κ) :
    (l.closedHeld k).closes.length = l.closes.length := by
  unfold closedHeld
  split
  · rfl
  · exact List.length_modify ..

theorem closedHeld_getD (l : Ledger κ) (k : κ) (hi : i < l.closes.length) :
    (l.closedHeld k).closes.getD i 0 =
      l.closes.getD i 0 + if l.held k = some i then 1 else 0 := by
  cases hheld : l.held k with
  | none => simp [closedHeld, hheld]
  | some j =>
      simp only [closedHeld, hheld, closed, getD_modify, hi, and_true, Option.some.injEq]
      simp only [eq_comm]

theorem cleanup_length (l : Ledger κ) (ks : List κ) :
    (l.cleanup ks).closes.length = l.closes.length := by
  induction ks generalizing l with
  | nil => rfl
  | cons k ks ih => exact (ih (l.closedHeld k)).trans (closedHeld_length l k)

/-- The clean-up closes a resource once for each of its holders. -/
theorem cleanup_getD (l : Ledger κ) (ks : List κ) (hi : i < l.closes.length) :
    (l.cleanup ks).closes.getD i 0 = l.closes.getD i 0 + l.holders ks i := by
  induction ks generalizing l with
  | nil => rfl
  | cons k ks ih =>
      have hrest := ih (l.closedHeld k) (by rwa [closedHeld_length])
      have hholders : (l.closedHeld k).holders ks i = l.holders ks i := by
        simp only [holders, closedHeld_held]
      have hcons : l.holders (k :: ks) i =
          l.holders ks i + if l.held k = some i then 1 else 0 := by
        simp only [holders, List.countP_cons, decide_eq_true_eq]
      rw [hholders, closedHeld_getD l k hi] at hrest
      rw [hcons, ← Nat.add_assoc, Nat.add_right_comm]
      exact hrest

/-- Once the variables' resources are closed, every resource is closed once. -/
theorem Balanced.cleanup (h : Balanced l ks) : ∀ n ∈ (l.cleanup ks).closes, n = 1 := by
  intro n hn
  obtain ⟨i, hi, rfl⟩ := List.getElem_of_mem hn
  have hlt : i < l.closes.length := by rwa [cleanup_length] at hi
  have hone := cleanup_getD l ks hlt
  rw [h i, if_pos hlt, List.getD_eq_getElem?_getD, List.getElem?_eq_getElem hi] at hone
  exact hone

end cleanup

end Ledger

end Ownership
