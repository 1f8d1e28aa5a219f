import Mathlib.Logic.Function.Basic
import Mathlib.Data.Option.Basic
import Mathlib.Data.Nat.Notation
import Mathlib.Data.Finset.Card
import Mathlib.Algebra.Order.BigOperators.Group.Finset

/-! # Transition systems and interleaved threads

A general library for programs whose threads share memory.

* **Systems.** A `System` has initial states and a partial, labelled step function.
  `Reach ok` is reachability along steps that satisfy a condition `ok` on the state before the
  step and its label; `Reachable` allows every step.  Invariants are proved by
  `System.Reach.invariant`, concrete runs are evaluated by `System.exec`.
* **Simulation.** States of one system are mapped to states of another one, step by step or
  with steps that change nothing there (`Reachable.simulate`).
* **Views.** If a view of the state changes only at certain events, and there by nothing but
  the event, a run acts on the view by its inputs and its trace of events (`exec_view`).
* **Logs.** `System.logged` adds a log of the steps that no step reads; runs with a log are the
  runs of the system (`Reach.unlog`, `Reach.exists_log`).
* **Threads.** A `World` is a shared memory and a control state for every thread.
  `interleave` is the system in which at each step one thread executes one atomic action
  (`next`) or the environment changes the shared memory (`env`).  A fact that goes with a value
  a thread has in hand is proved by `interleave_held`.
* **Exclusive resources.** A lock or token is a flag `free` and a set of holders.  `Exclusive`
  says that the resource is free and nobody holds it, or it is taken and exactly one thread
  holds it.  It is preserved by every local `Move` (`Exclusive.update`): a thread that changes
  neither, takes the free resource, or gives back the one it holds.
* **Tokens.** `Unshared` says that no two threads carry the same token; it is preserved when a
  thread keeps its token or gets one that nobody carries (`Unshared.update`).
* **Counting.** `Counted p thr n` says that exactly `n` threads satisfy `p`; one thread moves at
  a time, so the count stays, grows by one or falls by one.
* **Weights.** `Weighed f thr n` says that the weights of the threads add up to `n`, such as the
  steps that each of them has left.
* **Values in flight.** A value is logged when a thread takes it in hand and logged again when
  the thread passes it on.  `InFlight` says that the two logs differ by what is in hand.
* **Streaks.** `hitsSince reset hit log` counts the hits in a log since its last reset, which is
  what a counter of consecutive events should have.
* **Merged logs.** `tagged p log` are the entries of a log whose tags satisfy `p`.  The entries
  with one of two tags are a merge of those with the one and those with the other
  (`merges_tagged`). -/

namespace Threads

/-! ### Systems -/

/-- Initial states and a partial labelled step function. -/
structure System (σ ℓ : Type) where
  init : σ → Prop
  step : σ → ℓ → Option σ

namespace System

variable {σ ℓ : Type} (S : System σ ℓ)

/-- States reachable along steps that satisfy `ok`. -/
inductive Reach (ok : σ → ℓ → Prop) : σ → Prop
  | init {s : σ} : S.init s → Reach ok s
  | step {s s' : σ} {l : ℓ} : Reach ok s → ok s l → S.step s l = some s' → Reach ok s'

/-- States reachable along any steps. -/
def Reachable (s : σ) : Prop := S.Reach (fun _ _ => True) s

/-- Run a list of labels; `none` if one of them is not enabled or does not satisfy `ok`. -/
def exec (ok : σ → ℓ → Prop) [∀ s l, Decidable (ok s l)] : σ → List ℓ → Option σ
  | s, [] => some s
  | s, l :: ls =>
      if ok s l then
        match S.step s l with
        | none => none
        | some s' => exec ok s' ls
      else none

variable {S} {ok ok' : σ → ℓ → Prop} {s s' : σ}

/-- **Invariant rule.** -/
theorem Reach.invariant {I : σ → Prop} (hinit : ∀ s, S.init s → I s)
    (hstep : ∀ s l s', S.Reach ok s → I s → ok s l → S.step s l = some s' → I s')
    (h : S.Reach ok s) : I s := by
  induction h with
  | init h => exact hinit _ h
  | step hr hok hs ih => exact hstep _ _ _ hr ih hok hs

/-- A weaker condition on the steps, which may use that the state before is reachable. -/
theorem Reach.mono (hmono : ∀ s l s', S.Reach ok s → ok s l → S.step s l = some s' → ok' s l)
    (h : S.Reach ok s) : S.Reach ok' s := by
  induction h with
  | init h => exact .init h
  | step hr hok hs ih => exact .step ih (hmono _ _ _ hr hok hs) hs

theorem Reachable.step {l : ℓ} (h : S.Reachable s) (hs : S.step s l = some s') : S.Reachable s' :=
  Reach.step h trivial hs

theorem Reach.exec [∀ s l, Decidable (ok s l)] {ls : List ℓ} (h : S.Reach ok s)
    (hs : S.exec ok s ls = some s') : S.Reach ok s' := by
  induction ls generalizing s with
  | nil => cases hs; exact h
  | cons l ls ih =>
      simp only [System.exec] at hs
      split at hs
      · split at hs
        · cases hs
        · exact ih (h.step ‹_› ‹_›) hs
      · cases hs

/-- A run of which every step satisfies `ok` in any state. -/
theorem Reach.exec_of_forall [∀ s l, Decidable (ok' s l)] {ls : List ℓ} (h : S.Reach ok s)
    (hok : ∀ l ∈ ls, ∀ s, ok s l) (hs : S.exec ok' s ls = some s') : S.Reach ok s' := by
  induction ls generalizing s with
  | nil => cases hs; exact h
  | cons l ls ih =>
      simp only [System.exec] at hs
      split at hs
      · split at hs
        · cases hs
        · exact ih (h.step (hok l List.mem_cons_self s) ‹_›)
            (fun l hl => hok l (List.mem_cons_of_mem _ hl)) hs
      · cases hs

/-- What every step preserves holds after every run. -/
theorem exec_preserves {P : σ → Prop} [∀ s l, Decidable (ok s l)] {ls : List ℓ}
    (hstep : ∀ s l s', P s → S.step s l = some s' → P s') (hs : P s)
    (h : S.exec ok s ls = some s') : P s' := by
  induction ls generalizing s with
  | nil => cases h; exact hs
  | cons l ls ih =>
      simp only [System.exec] at h
      split at h
      · split at h
        · cases h
        · exact ih (hstep _ _ _ hs ‹_›) h
      · cases h

/-- **Simulation.**  If every step of one system is a step of another one or nothing there, its
states are mapped to states the other one reaches. -/
theorem Reachable.simulate {τ ℓ' : Type} {T : System τ ℓ'} {f : σ → τ}
    (hinit : ∀ s, S.init s → T.init (f s))
    (hstep : ∀ s l s', S.Reachable s → S.step s l = some s' →
      f s' = f s ∨ ∃ l', T.step (f s) l' = some (f s'))
    (h : S.Reachable s) : T.Reachable (f s) := by
  induction h with
  | init h => exact .init (hinit _ h)
  | step hr _ hs ih =>
      rcases hstep _ _ _ hr hs with hstay | ⟨l', hl'⟩
      · rw [hstay]
        exact ih
      · exact ih.step hl'

/-! ### Views -/

section views
variable {β η : Type} (S) (event : σ → ℓ → σ → Option η)

/-- The events of a run: some steps count as an event, the others do not. -/
def trace : σ → List ℓ → List η
  | _, [] => []
  | s, l :: ls =>
      match S.step s l with
      | none => []
      | some s' => (event s l s').toList ++ trace s' ls

variable {S event} {ι : Type} {view : σ → β} {feed : β → List ι → β} {apply : β → η → β}
  {input : ℓ → Option ι} {P : σ → Prop}

/-- Some steps bring an input, which waits in the view behind those that came before.  If an event
changes the view in a way that depends on nothing but the view, and every other step leaves the
view alone, then the inputs and the events of a run determine its effect on the view, whenever the
inputs come. -/
theorem exec_view [∀ s l, Decidable (ok s l)] {ls : List ℓ}
    (hstep : ∀ s l s' more, P s → S.step s l = some s' →
      P s' ∧ feed (view s') more =
        (event s l s').toList.foldl apply (feed (view s) ((input l).toList ++ more)))
    (hs : P s) (h : S.exec ok s ls = some s') (more : List ι) :
    feed (view s') more =
      (S.trace event s ls).foldl apply (feed (view s) (ls.filterMap input ++ more)) := by
  induction ls generalizing s with
  | nil =>
      cases h
      rfl
  | cons l ls ih =>
      simp only [System.exec] at h
      split at h
      · cases hl : S.step s l with
        | none => simp [hl] at h
        | some s₁ =>
            simp only [hl] at h
            obtain ⟨hP, hview⟩ := hstep s l s₁ (ls.filterMap input ++ more) hs hl
            have hinputs : (l :: ls).filterMap input ++ more =
                (input l).toList ++ (ls.filterMap input ++ more) := by
              cases hi : input l <;> simp [hi]
            simp only [trace, hl, List.foldl_append, hinputs, ← hview]
            exact ih hP h
      · cases h

end views

/-! ### Logs -/

section logs
variable {α : Type} (S) (a₀ : α) (note : α → σ → ℓ → α)

/-- The system together with a log of its steps, which no step reads. -/
def logged : System (σ × α) ℓ where
  init p := S.init p.1 ∧ p.2 = a₀
  step p l := (S.step p.1 l).map fun s => (s, note p.2 p.1 l)

variable {S a₀ note}

theorem logged_step {p p' : σ × α} {l : ℓ} :
    (S.logged a₀ note).step p l = some p' ↔ S.step p.1 l = some p'.1 ∧ p'.2 = note p.2 p.1 l := by
  simp only [logged, Option.map_eq_some_iff]
  constructor
  · rintro ⟨s, hs, rfl⟩
    exact ⟨hs, rfl⟩
  · rintro ⟨hs, hn⟩
    exact ⟨p'.1, hs, by rw [← hn]⟩

/-- A run with a log is a run. -/
theorem Reach.unlog {p : σ × α} (h : (S.logged a₀ note).Reach (fun p => ok p.1) p) :
    S.Reach ok p.1 := by
  induction h with
  | init h => exact .init h.1
  | step _ hok hs ih => exact ih.step hok (logged_step.mp hs).1

/-- Every run has its log. -/
theorem Reach.exists_log (h : S.Reach ok s) :
    ∃ a, (S.logged a₀ note).Reach (fun p => ok p.1) (s, a) := by
  induction h with
  | init h => exact ⟨a₀, .init ⟨h, rfl⟩⟩
  | step _ hok hs ih =>
      obtain ⟨a, ha⟩ := ih
      exact ⟨_, ha.step hok (logged_step.mpr ⟨hs, rfl⟩)⟩

end logs

end System

/-! ### Threads over shared memory -/

/-- A shared memory and a control state for every thread. -/
structure World (σ π : Type) where
  shared : σ
  thr : ℕ → π

/-- A step of thread `t` with the choice `c`, or a step of the environment. -/
inductive Label (κ ε : Type) where
  | thread (t : ℕ) (c : κ)
  | env (e : ε)
deriving DecidableEq, Repr

/-- The step is not one of a thread from `n` on. -/
def Label.below {κ ε : Type} (n : ℕ) : Label κ ε → Bool
  | .thread t _ => t < n
  | .env _ => true

/-- A statement about all threads after one of them moved. -/
theorem forall_update {π : Type} {P : ℕ → π → Prop} {thr : ℕ → π} {t : ℕ} {p : π} (ht : P t p)
    (hu : ∀ u, u ≠ t → P u (thr u)) (u : ℕ) : P u (Function.update thr t p u) := by
  by_cases h : u = t
  · subst h
    simpa using ht
  · rw [Function.update_of_ne h]
    exact hu u h

section interleaving
variable {σ π κ ε : Type} (init : World σ π → Prop) (next : σ → π → κ → Option (σ × π))
  (env : σ → ε → Option σ)

/-- The interleaving of all threads and the environment. -/
def interleave : System (World σ π) (Label κ ε) where
  init := init
  step w
    | .thread t c =>
        (next w.shared (w.thr t) c).map fun r => ⟨r.1, Function.update w.thr t r.2⟩
    | .env e => (env w.shared e).map fun s => ⟨s, w.thr⟩

variable {init next env} {ok : World σ π → Label κ ε → Prop} {w w' : World σ π}

theorem interleave_step_thread {t : ℕ} {c : κ} :
    (interleave init next env).step w (.thread t c) = some w' ↔
      ∃ s p, next w.shared (w.thr t) c = some (s, p) ∧ w' = ⟨s, Function.update w.thr t p⟩ := by
  simp only [interleave, Option.map_eq_some_iff]
  constructor
  · rintro ⟨⟨s, p⟩, h, rfl⟩
    exact ⟨s, p, h, rfl⟩
  · rintro ⟨s, p, h, rfl⟩
    exact ⟨(s, p), h, rfl⟩

theorem interleave_step_env {e : ε} :
    (interleave init next env).step w (.env e) = some w' ↔
      ∃ s, env w.shared e = some s ∧ w' = ⟨s, w.thr⟩ := by
  simp only [interleave, Option.map_eq_some_iff]
  constructor
  · rintro ⟨s, h, rfl⟩
    exact ⟨s, h, rfl⟩
  · rintro ⟨s, h, rfl⟩
    exact ⟨s, h, rfl⟩

/-- **Invariant rule for interleavings**: initial states, one step of a thread, one step of
the environment. -/
theorem interleave_invariant {I : World σ π → Prop} (hinit : ∀ w, init w → I w)
    (hthread : ∀ w t c s p, (interleave init next env).Reach ok w → I w → ok w (.thread t c) →
      next w.shared (w.thr t) c = some (s, p) → I ⟨s, Function.update w.thr t p⟩)
    (henv : ∀ w e s, (interleave init next env).Reach ok w → I w → ok w (.env e) →
      env w.shared e = some s → I ⟨s, w.thr⟩)
    (h : (interleave init next env).Reach ok w) : I w := by
  refine h.invariant hinit fun w l w' hr hi hok hs => ?_
  cases l with
  | thread t c =>
      obtain ⟨s, p, hn, rfl⟩ := interleave_step_thread.mp hs
      exact hthread w t c s p hr hi hok hn
  | env e =>
      obtain ⟨s, he, rfl⟩ := interleave_step_env.mp hs
      exact henv w e s hr hi hok he

/-- **What a thread has established**: a fact about the shared memory that goes with a value `a`
which a thread has in hand (`f`).  No step undoes the fact for a value in hand, and the step that
takes a value establishes it. -/
theorem interleave_held {α : Type} {f : π → Option α} {P : σ → α → Prop}
    (hinit : ∀ w t, init w → f (w.thr t) = none)
    (hkeep : ∀ w t c s p u a, (interleave init next env).Reach ok w →
      next w.shared (w.thr t) c = some (s, p) → f (w.thr u) = some a → P w.shared a → P s a)
    (hnew : ∀ w t c s p a, (interleave init next env).Reach ok w → ok w (.thread t c) →
      next w.shared (w.thr t) c = some (s, p) → f p = some a → f (w.thr t) = some a ∨ P s a)
    (henv : ∀ s e s' a, env s e = some s' → P s a → P s' a)
    (h : (interleave init next env).Reach ok w) {t : ℕ} {a : α} (ht : f (w.thr t) = some a) :
    P w.shared a := by
  revert t a
  refine interleave_invariant (I := fun w => ∀ {t a}, f (w.thr t) = some a → P w.shared a)
    ?_ ?_ ?_ h
  · intro w hw t a ht
    rw [hinit w t hw] at ht
    cases ht
  · intro w t c s p hr hi hok hn u a
    have hold : ∀ v, f (w.thr v) = some a → P s a :=
      fun v hv => hkeep w t c s p v a hr hn hv (hi hv)
    refine forall_update (P := fun _ p => f p = some a → P s a) (fun hp => ?_)
      (fun v _ => hold v) u
    rcases hnew w t c s p a hr hok hn hp with hsame | hfact
    · exact hold t hsame
    · exact hfact
  · intro w e s _ hi _ he t a ht
    exact henv w.shared e s a he (hi ht)

/-- The same rule for an interleaving with a log. -/
theorem logged_invariant {α : Type} {a₀ a : α} {note : α → World σ π → Label κ ε → α}
    {I : World σ π → α → Prop} (hinit : ∀ w, init w → I w a₀)
    (hthread : ∀ w a t c s p, (interleave init next env).Reach ok w → I w a → ok w (.thread t c) →
      next w.shared (w.thr t) c = some (s, p) →
      I ⟨s, Function.update w.thr t p⟩ (note a w (.thread t c)))
    (henv : ∀ w a e s, (interleave init next env).Reach ok w → I w a → ok w (.env e) →
      env w.shared e = some s → I ⟨s, w.thr⟩ (note a w (.env e)))
    (h : ((interleave init next env).logged a₀ note).Reach (fun p => ok p.1) (w, a)) : I w a := by
  refine System.Reach.invariant (I := fun p => I p.1 p.2) ?_ ?_ h
  · rintro ⟨w, a⟩ ⟨hw, rfl⟩
    exact hinit w hw
  · rintro ⟨w, a⟩ l ⟨w', a'⟩ hr hi hok hs
    obtain ⟨hs, rfl⟩ := System.logged_step.mp hs
    cases l with
    | thread t c =>
        obtain ⟨s, p, hn, rfl⟩ := interleave_step_thread.mp hs
        exact hthread w a t c s p hr.unlog hi hok hn
    | env e =>
        obtain ⟨s, he, rfl⟩ := interleave_step_env.mp hs
        exact henv w a e s hr.unlog hi hok he

/-- A thread that takes no part in the runs is where it was in an initial state. -/
theorem reach_thr {n t : ℕ} (hok : ∀ w l, ok w l → l.below n = true) (ht : n ≤ t)
    (h : (interleave init next env).Reach ok w) : ∃ w₀, init w₀ ∧ w.thr t = w₀.thr t := by
  refine interleave_invariant (I := fun w => ∃ w₀, init w₀ ∧ w.thr t = w₀.thr t)
    (fun w hw => ⟨w, hw, rfl⟩) ?_ (fun _ _ _ _ hi _ _ => hi) h
  rintro w u c s p _ ⟨w₀, hinit, hw⟩ hl _
  have hu : u < n := of_decide_eq_true (hok w _ hl)
  exact ⟨w₀, hinit, by rw [← hw]; exact Function.update_of_ne (by omega) _ _⟩

/-- All threads but finitely many have taken no step. -/
theorem eventually_idle {idle : π} (hinit : ∀ w, init w → ∃ n, ∀ t, n ≤ t → w.thr t = idle)
    (h : (interleave init next env).Reach ok w) : ∃ n, ∀ t, n ≤ t → w.thr t = idle := by
  refine interleave_invariant (I := fun w => ∃ n, ∀ t, n ≤ t → w.thr t = idle) hinit ?_
    (fun _ _ _ _ hi _ _ => hi) h
  rintro w u c s p _ ⟨n, hn⟩ _ _
  refine ⟨max n (u + 1), fun t ht => ?_⟩
  have hne : t ≠ u := by omega
  exact (Function.update_of_ne hne _ _).trans (hn t (by omega))

/-- Threads that take no part in a run stay where they are. -/
theorem exec_thr [∀ w l, Decidable (ok w l)] {ls : List (Label κ ε)} {n t : ℕ}
    (hls : ∀ l ∈ ls, l.below n = true) (ht : n ≤ t)
    (h : (interleave init next env).exec ok w ls = some w') : w'.thr t = w.thr t := by
  induction ls generalizing w with
  | nil =>
      cases h
      rfl
  | cons l ls ih =>
      obtain ⟨hl, hrest⟩ := List.forall_mem_cons.mp hls
      simp only [System.exec] at h
      split at h
      · split at h
        · cases h
        · next w₁ hstep =>
            rw [ih hrest h]
            cases l with
            | thread u c =>
                obtain ⟨s, p, _, rfl⟩ := interleave_step_thread.mp hstep
                have hu : u < n := of_decide_eq_true hl
                exact Function.update_of_ne (by omega) _ _
            | env e =>
                obtain ⟨s, _, rfl⟩ := interleave_step_env.mp hstep
                rfl
      · cases h

end interleaving

/-- Another thread than the one that moved. -/
theorem exists_update {π α : Type} {f : π → Option α} {a : α} {thr : ℕ → π} {t u : ℕ} {p : π}
    (hu : u ≠ t) (h : f (thr u) = some a) : ∃ v, f (Function.update thr t p v) = some a :=
  ⟨u, by rwa [Function.update_of_ne hu]⟩

/-- The thread that moved. -/
theorem exists_update_self {π α : Type} {f : π → Option α} {a : α} {thr : ℕ → π} {t : ℕ} {p : π}
    (h : f p = some a) : ∃ v, f (Function.update thr t p v) = some a :=
  ⟨t, by rwa [Function.update_self]⟩

/-! ### Exclusive resources -/

/-- The resource is free and nobody holds it, or it is taken and exactly one thread holds it. -/
def Exclusive (free : Bool) (holds : ℕ → Bool) : Prop :=
  (free = true ∧ ∀ t, holds t = false) ∨
    (free = false ∧ ∃ t, holds t = true ∧ ∀ u, holds u = true → u = t)

/-- What one thread may do to a resource: nothing, take it when free, give back what it
holds. -/
inductive Move : Bool → Bool → Bool → Bool → Prop
  | keep (free h : Bool) : Move free h free h
  | take {free : Bool} : free = true → Move free false false true
  | give (free : Bool) : Move free true true false

namespace Exclusive

variable {free free' : Bool} {holds : ℕ → Bool} {t u : ℕ}

theorem unique (hx : Exclusive free holds) (ht : holds t = true) (hu : holds u = true) :
    u = t := by
  rcases hx with ⟨_, hnone⟩ | ⟨_, v, _, honly⟩
  · rw [hnone t] at ht
    cases ht
  · rw [honly t ht, honly u hu]

theorem not_free (hx : Exclusive free holds) (ht : holds t = true) : free = false := by
  rcases hx with ⟨_, hnone⟩ | ⟨hf, _⟩
  · rw [hnone t] at ht
    cases ht
  · exact hf

theorem exists_holder (hx : Exclusive free holds) (hf : free = false) : ∃ t, holds t = true := by
  rcases hx with ⟨hfree, _⟩ | ⟨_, t, ht, _⟩
  · rw [hf] at hfree
    cases hfree
  · exact ⟨t, ht⟩

theorem of_none (hnone : ∀ t, holds t = false) : Exclusive true holds := Or.inl ⟨rfl, hnone⟩

/-- A local move keeps the resource exclusive. -/
theorem update {b : Bool} (hx : Exclusive free holds) (hm : Move free (holds t) free' b) :
    Exclusive free' (Function.update holds t b) := by
  generalize hh : holds t = h at hm
  cases hm with
  | keep =>
      have e : Function.update holds t b = holds := by
        rw [← hh]
        exact Function.update_eq_self t holds
      rw [e]
      exact hx
  | take hfree =>
      rcases hx with ⟨_, hnone⟩ | ⟨hf, _⟩
      · refine Or.inr ⟨rfl, t, by simp, fun u hu => ?_⟩
        by_contra hne
        rw [Function.update_of_ne hne, hnone u] at hu
        cases hu
      · rw [hf] at hfree
        cases hfree
  | give =>
      refine Or.inl ⟨rfl, fun u => ?_⟩
      by_cases hut : u = t
      · simp [hut]
      · rw [Function.update_of_ne hut]
        by_contra hu
        exact hut (hx.unique hh (by simpa using hu))

/-- The same for holders that are read off the threads' control states. -/
theorem update_thr {π : Type} {thr : ℕ → π} {h : π → Bool} {p : π}
    (hx : Exclusive free fun u => h (thr u)) (hm : Move free (h (thr t)) free' (h p)) :
    Exclusive free' fun u => h (Function.update thr t p u) := by
  have e : (fun u => h (Function.update thr t p u)) =
      Function.update (fun u => h (thr u)) t (h p) := by
    funext u
    by_cases hut : u = t
    · simp [hut]
    · simp [Function.update_of_ne hut]
  rw [e]
  exact hx.update hm

end Exclusive

/-! ### Tokens -/

/-- No two threads carry the same token. -/
def Unshared {π α : Type} (token : π → Option α) (thr : ℕ → π) : Prop :=
  ∀ t u a, token (thr t) = some a → token (thr u) = some a → t = u

/-- A thread keeps its token, drops it, or gets one that no other thread carries. -/
theorem Unshared.update {π α : Type} {token : π → Option α} {thr : ℕ → π} {t : ℕ} {p : π}
    (h : Unshared token thr)
    (hp : ∀ a, token p = some a →
      token (thr t) = some a ∨ ∀ u, u ≠ t → token (thr u) ≠ some a) :
    Unshared token (Function.update thr t p) := by
  have hnew : ∀ u a, u ≠ t → token p = some a → token (thr u) ≠ some a := by
    intro u a hu ha hua
    rcases hp a ha with hold | hnone
    · exact hu (h u t a hua hold)
    · exact hnone u hu hua
  intro u v a hua hva
  by_cases hu : u = t
  · by_cases hv : v = t
    · rw [hu, hv]
    · rw [hu, Function.update_self] at hua
      rw [Function.update_of_ne hv] at hva
      exact absurd hva (hnew v a hv hua)
  · rw [Function.update_of_ne hu] at hua
    by_cases hv : v = t
    · rw [hv, Function.update_self] at hva
      exact absurd hua (hnew u a hu hva)
    · rw [Function.update_of_ne hv] at hva
      exact h u v a hua hva

/-! ### Counting -/

/-- Exactly `n` threads satisfy `p`. -/
def Counted {π : Type} (p : π → Prop) (thr : ℕ → π) (n : ℕ) : Prop :=
  ∃ ts : Finset ℕ, ts.card = n ∧ ∀ t, t ∈ ts ↔ p (thr t)

namespace Counted

variable {π : Type} {p : π → Prop} {thr : ℕ → π} {n t : ℕ} {x : π}

theorem of_none (h : ∀ t, ¬ p (thr t)) : Counted p thr 0 :=
  ⟨∅, rfl, fun t => by simp [h t]⟩

/-- A thread moves and its part in the count stays the same. -/
theorem keep (h : Counted p thr n) (hx : p x ↔ p (thr t)) :
    Counted p (Function.update thr t x) n := by
  obtain ⟨ts, hcard, hts⟩ := h
  refine ⟨ts, hcard, forall_update (P := fun u y => u ∈ ts ↔ p y) ?_ fun u _ => hts u⟩
  rw [hts t, hx]

/-- One thread more. -/
theorem add (h : Counted p thr n) (ht : ¬ p (thr t)) (hx : p x) :
    Counted p (Function.update thr t x) (n + 1) := by
  obtain ⟨ts, hcard, hts⟩ := h
  have hmem : t ∉ ts := fun hm => ht ((hts t).mp hm)
  refine ⟨insert t ts, by rw [Finset.card_insert_of_notMem hmem, hcard], ?_⟩
  refine forall_update (P := fun u y => u ∈ insert t ts ↔ p y) ?_ fun u hu => ?_
  · simp [hx]
  · simp [hu, hts u]

/-- One thread less. -/
theorem remove (h : Counted p thr (n + 1)) (ht : p (thr t)) (hx : ¬ p x) :
    Counted p (Function.update thr t x) n := by
  obtain ⟨ts, hcard, hts⟩ := h
  have hmem : t ∈ ts := (hts t).mpr ht
  refine ⟨ts.erase t, by rw [Finset.card_erase_of_mem hmem, hcard, Nat.add_sub_cancel], ?_⟩
  refine forall_update (P := fun u y => u ∈ ts.erase t ↔ p y) ?_ fun u hu => ?_
  · simp [hx]
  · simp [hu, hts u]

theorem pos (h : Counted p thr n) (ht : p (thr t)) : 0 < n := by
  obtain ⟨ts, hcard, hts⟩ := h
  rw [← hcard]
  exact Finset.card_pos.mpr ⟨t, (hts t).mpr ht⟩

theorem exists_of_pos (h : Counted p thr n) (hn : 0 < n) : ∃ t, p (thr t) := by
  obtain ⟨ts, hcard, hts⟩ := h
  rw [← hcard] at hn
  obtain ⟨t, ht⟩ := Finset.card_pos.mp hn
  exact ⟨t, (hts t).mp ht⟩

/-- One thread moves. -/
theorem update {f : π → Bool} (h : Counted (fun x => f x = true) thr n) (t : ℕ) (x : π) :
    ∃ m, Counted (fun x => f x = true) (Function.update thr t x) m ∧
      m + (f (thr t)).toNat = n + (f x).toNat := by
  by_cases hsame : f x = f (thr t)
  · exact ⟨n, h.keep (by rw [hsame]), by rw [hsame]⟩
  · cases hx : f x with
    | true =>
        have ht : f (thr t) = false := by simpa [hx] using hsame
        exact ⟨n + 1, h.add (by simp [ht]) hx, by simp [ht]⟩
    | false =>
        have ht : f (thr t) = true := by simpa [hx] using hsame
        obtain ⟨m, rfl⟩ := Nat.exists_eq_succ_of_ne_zero (Nat.ne_of_gt (h.pos ht))
        exact ⟨m, h.remove ht (by simp [hx]), by simp [ht]⟩

end Counted

/-! ### Weights -/

/-- The weights of the threads add up to `n`. -/
def Weighed {π : Type} (f : π → ℕ) (thr : ℕ → π) (n : ℕ) : Prop :=
  ∃ ts : Finset ℕ, (∀ t, t ∉ ts → f (thr t) = 0) ∧ ∑ t ∈ ts, f (thr t) = n

/-- One thread moves. -/
theorem Weighed.update {π : Type} {f : π → ℕ} {thr : ℕ → π} {n : ℕ} (h : Weighed f thr n) (t : ℕ)
    (x : π) : ∃ m, Weighed f (Function.update thr t x) m ∧ m + f (thr t) = n + f x := by
  obtain ⟨ts, hout, hsum⟩ := h
  have hts : ∑ u ∈ insert t ts, f (thr u) = n := by
    rw [← hsum]
    exact (Finset.sum_subset (Finset.subset_insert t ts) fun u _ hu => hout u hu).symm
  have hrest : ∑ u ∈ (insert t ts).erase t, f (Function.update thr t x u) =
      ∑ u ∈ (insert t ts).erase t, f (thr u) :=
    Finset.sum_congr rfl fun u hu => by rw [Function.update_of_ne (Finset.ne_of_mem_erase hu)]
  refine ⟨_, ⟨insert t ts, fun u hu => ?_, rfl⟩, ?_⟩
  · rw [Finset.mem_insert, not_or] at hu
    rw [Function.update_of_ne hu.1]
    exact hout u hu.2
  · rw [← Finset.add_sum_erase _ _ (Finset.mem_insert_self t ts), hrest, Function.update_self,
      ← hts, ← Finset.add_sum_erase _ (fun u => f (thr u)) (Finset.mem_insert_self t ts)]
    omega

/-- Only the threads that are counted have a weight. -/
theorem Counted.weighed {π : Type} {p : π → Prop} {thr : ℕ → π} {n : ℕ} (h : Counted p thr n)
    {f : π → ℕ} {b : ℕ} (hf : ∀ x, f x ≤ b) (hno : ∀ x, ¬ p x → f x = 0) :
    ∃ m, m ≤ n * b ∧ Weighed f thr m := by
  obtain ⟨ts, rfl, hts⟩ := h
  exact ⟨_, Finset.sum_le_card_nsmul ts _ b fun t _ => hf (thr t), ts,
    fun t ht => hno _ fun hp => ht ((hts t).mpr hp), rfl⟩

/-! ### Values in flight -/

/-- Everything written to the log `out` has been moved to the log `moved`, except what a thread
still has in hand. -/
def InFlight {π α : Type} (hand : π → List α) (out moved : List α) (thr : ℕ → π) : Prop :=
  (∀ t, hand (thr t) ≠ [] → out = moved ++ hand (thr t)) ∧
    ((∀ t, hand (thr t) = []) → out = moved)

/-- What one thread may do to the logs: nothing, log a value and take it in hand, move on the
value in hand. -/
inductive Transfer {α : Type} : List α → List α → List α → List α → List α → List α → Prop
  | keep (out moved h : List α) : Transfer out moved h out moved h
  | pick (out moved : List α) (x : α) : Transfer out moved [] (out ++ [x]) moved [x]
  | drop (out moved : List α) (x : α) : Transfer out moved [x] out (moved ++ [x]) []

namespace InFlight

variable {π α : Type} {hand : π → List α} {out moved out' moved' : List α} {thr : ℕ → π} {t : ℕ}
  {p : π}

theorem of_none (hnone : ∀ t, hand (thr t) = []) : InFlight hand [] [] thr :=
  ⟨fun t h => absurd (hnone t) h, fun _ => rfl⟩

theorem moved_prefix (hi : InFlight hand out moved thr) : moved <+: out := by
  by_cases h : ∀ t, hand (thr t) = []
  · exact ⟨[], by rw [hi.2 h, List.append_nil]⟩
  · obtain ⟨t, ht⟩ := not_forall.mp h
    exact ⟨_, (hi.1 t ht).symm⟩

/-- A transfer keeps the logs in step, if no other thread has a value in hand. -/
theorem update (hi : InFlight hand out moved thr)
    (hm : Transfer out moved (hand (thr t)) out' moved' (hand p))
    (honly : hand (thr t) ≠ hand p → ∀ u, u ≠ t → hand (thr u) = []) :
    InFlight hand out' moved' (Function.update thr t p) := by
  generalize hh : hand (thr t) = h at hm
  generalize hp : hand p = h' at hm
  cases hm with
  | keep =>
      have e : ∀ u, hand (Function.update thr t p u) = hand (thr u) := by
        intro u
        by_cases hu : u = t
        · rw [hu, Function.update_self, hp, hh]
        · rw [Function.update_of_ne hu]
      simpa only [InFlight, e] using hi
  | pick x =>
      have hothers := honly (by simp [hh, hp])
      have hout : out = moved := hi.2 fun u => by
        by_cases hu : u = t
        · rw [hu, hh]
        · exact hothers u hu
      refine ⟨fun u hne => ?_, fun hnone => ?_⟩
      · by_cases hu : u = t
        · rw [hu, Function.update_self, hp, hout]
        · rw [Function.update_of_ne hu] at hne
          exact absurd (hothers u hu) hne
      · have := hnone t
        rw [Function.update_self, hp] at this
        cases this
  | drop x =>
      have hothers := honly (by simp [hh, hp])
      have hout := hi.1 t (by simp [hh])
      rw [hh] at hout
      refine ⟨fun u hne => ?_, fun _ => hout⟩
      by_cases hu : u = t
      · rw [hu, Function.update_self, hp] at hne
        exact absurd rfl hne
      · rw [Function.update_of_ne hu] at hne
        exact absurd (hothers u hu) hne

end InFlight

/-! ### Streaks -/

section streaks
variable {α : Type} (reset hit : α → Bool)

/-- The hits of a log since its last reset. -/
def hitsSince (log : List α) : ℕ := (log.reverse.takeWhile fun e => !reset e).countP hit

theorem hitsSince_concat (log : List α) (e : α) :
    hitsSince reset hit (log ++ [e]) =
      if reset e then 0 else hitsSince reset hit log + if hit e then 1 else 0 := by
  cases hr : reset e <;> simp [hitsSince, hr, List.countP_cons]

end streaks

/-! ### Merged logs -/

/-- `zs` consists of the entries of `xs` and `ys`, each in their order. -/
inductive Merges {α : Type} : List α → List α → List α → Prop
  | nil : Merges [] [] []
  | fst {x : α} {xs ys zs : List α} : Merges xs ys zs → Merges (x :: xs) ys (x :: zs)
  | snd {y : α} {xs ys zs : List α} : Merges xs ys zs → Merges xs (y :: ys) (y :: zs)

namespace Merges

variable {α β : Type} {xs ys zs : List α}

theorem symm (h : Merges xs ys zs) : Merges ys xs zs := by
  induction h with
  | nil => exact .nil
  | fst _ ih => exact .snd ih
  | snd _ ih => exact .fst ih

theorem map (f : α → β) (h : Merges xs ys zs) : Merges (xs.map f) (ys.map f) (zs.map f) := by
  induction h with
  | nil => exact .nil
  | fst _ ih => exact .fst ih
  | snd _ ih => exact .snd ih

theorem eq_of_nil (h : Merges [] ys zs) : zs = ys := by
  generalize hxs : ([] : List α) = xs at h
  induction h with
  | nil => rfl
  | fst => cases hxs
  | snd _ ih => rw [ih hxs]

/-- Entries that are alone come in one of two orders. -/
theorem of_length_le_one (h : Merges xs ys zs) (hx : xs.length ≤ 1) (hy : ys.length ≤ 1) :
    zs = xs ++ ys ∨ zs = ys ++ xs := by
  cases h with
  | nil => exact Or.inl rfl
  | fst h =>
      obtain rfl := List.length_eq_zero_iff.mp (Nat.le_zero.mp (Nat.le_of_succ_le_succ hx))
      rw [h.eq_of_nil]
      exact Or.inl rfl
  | snd h =>
      obtain rfl := List.length_eq_zero_iff.mp (Nat.le_zero.mp (Nat.le_of_succ_le_succ hy))
      rw [h.symm.eq_of_nil]
      exact Or.inr rfl

end Merges

section tags
variable {ι α : Type}

/-- The entries of a log whose tags satisfy `p`. -/
def tagged (p : ι → Bool) (log : List (ι × α)) : List α :=
  (log.filter fun m => p m.1).map Prod.snd

theorem mem_tagged {p : ι → Bool} {log : List (ι × α)} {x : α} (h : x ∈ tagged p log) :
    ∃ i, p i = true ∧ (i, x) ∈ log := by
  obtain ⟨⟨i, y⟩, hm, rfl⟩ := List.mem_map.mp h
  obtain ⟨hm, hi⟩ := List.mem_filter.mp hm
  exact ⟨i, hi, hm⟩

theorem tagged_append (p : ι → Bool) (log log' : List (ι × α)) :
    tagged p (log ++ log') = tagged p log ++ tagged p log' := by
  rw [tagged, List.filter_append, List.map_append]
  rfl

theorem tagged_of_none {p : ι → Bool} {log : List (ι × α)} (h : ∀ m ∈ log, p m.1 = false) :
    tagged p log = [] := by
  rw [tagged, List.map_eq_nil_iff, List.filter_eq_nil_iff]
  intro m hm
  rw [h m hm]
  exact Bool.false_ne_true

/-- Entries with one tag. -/
theorem tagged_map (p : ι → Bool) (i : ι) (l : List α) :
    tagged p (l.map (i, ·)) = if p i then l else [] := by
  split
  · rename_i hi
    simp [tagged, List.filter_map, hi, Function.comp_def]
  · rename_i hi
    exact tagged_of_none (by simp [hi])

/-- A log is a merge of its parts. -/
theorem merges_tagged {p q : ι → Bool} (hpq : ∀ i, p i = true → q i = false)
    (log : List (ι × α)) :
    Merges (tagged p log) (tagged q log) (tagged (fun i => p i || q i) log) := by
  induction log with
  | nil => exact .nil
  | cons m log ih =>
      unfold tagged at ih ⊢
      cases hp : p m.1 with
      | true =>
          simp only [List.filter_cons, hp, hpq _ hp]
          exact .fst ih
      | false =>
          cases hq : q m.1 with
          | true =>
              simp only [List.filter_cons, hp, hq]
              exact .snd ih
          | false =>
              simp only [List.filter_cons, hp, hq]
              exact ih

end tags

end Threads
