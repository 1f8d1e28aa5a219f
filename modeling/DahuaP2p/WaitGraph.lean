import Mathlib.Logic.Relation
import Mathlib.Data.Nat.Notation

/-! # Waiting for resources in order

A general library for threads that wait for resources which other threads hold.  If the resources
can be ranked so that whoever holds one waits only for resources of lower rank, then nobody waits
in a circle (`Ordered.acyclic`), and behind every wait there is a thread that does not wait
(`Ordered.wait_ends`). -/

namespace WaitGraph

/-- What each thread waits for, and what it holds. -/
structure Graph (ι ρ : Type) where
  wants : ι → Option ρ
  holds : ι → ρ → Prop

namespace Graph

variable {ι ρ : Type} (g : Graph ι ρ)

/-- A thread waits for a resource that another one holds. -/
def WaitsFor (t u : ι) : Prop := ∃ r, g.wants t = some r ∧ g.holds u r

/-- Whoever holds a resource waits only for one of lower rank. -/
def Ordered (rank : ρ → ℕ) : Prop :=
  ∀ t r r', g.holds t r → g.wants t = some r' → rank r' < rank r

variable {g} {rank : ρ → ℕ} {t u : ι} {r r' : ρ}

/-- Along a chain of waits the ranks fall. -/
theorem Ordered.rank_lt (h : g.Ordered rank) (hc : Relation.TransGen g.WaitsFor t u)
    (ht : g.wants t = some r) (hu : g.wants u = some r') : rank r' < rank r := by
  induction hc generalizing r' with
  | single hw =>
      obtain ⟨q, hq, hheld⟩ := hw
      obtain rfl : r = q := Option.some.inj (ht.symm.trans hq)
      exact h _ _ _ hheld hu
  | tail _ hw ih =>
      obtain ⟨q, hq, hheld⟩ := hw
      exact Nat.lt_trans (h _ _ _ hheld hu) (ih hq)

/-- **Nobody waits in a circle.** -/
theorem Ordered.acyclic (h : g.Ordered rank) (t : ι) : ¬ Relation.TransGen g.WaitsFor t t := by
  intro hc
  obtain ⟨u, ⟨r, hr, -⟩, -⟩ := Relation.TransGen.head'_iff.mp hc
  exact Nat.lt_irrefl _ (h.rank_lt hc hr hr)

/-- **Every wait ends.**  Behind a thread that waits for a taken resource there is one that holds a
resource and does not wait for a taken one. -/
theorem Ordered.wait_ends (h : g.Ordered rank) {taken : ρ → Prop}
    (hheld : ∀ r, taken r → ∃ u, g.holds u r) (ht : g.wants t = some r) (hr : taken r) :
    ∃ u q, Relation.TransGen g.WaitsFor t u ∧ g.holds u q ∧
      ∀ r', g.wants u = some r' → ¬ taken r' := by
  induction hrank : rank r using Nat.strongRecOn generalizing t r with
  | ind n ih =>
      obtain ⟨u, hu⟩ := hheld r hr
      have hfirst : Relation.TransGen g.WaitsFor t u := .single ⟨r, ht, hu⟩
      by_cases hmore : ∃ r', g.wants u = some r' ∧ taken r'
      · obtain ⟨r', hr', htaken⟩ := hmore
        have hlt : rank r' < n := hrank ▸ h u r r' hu hr'
        obtain ⟨v, q, hv, hq, hend⟩ := ih _ hlt hr' htaken rfl
        exact ⟨v, q, hfirst.trans hv, hq, hend⟩
      · exact ⟨u, r, hfirst, hu, fun r' hr' htaken => hmore ⟨r', hr', htaken⟩⟩

end Graph

end WaitGraph
