import Mathlib.Order.Defs.Unbundled

/-! # Programs with state and failure

A small library for sequential code that changes a state and may fail on the way.

* A `Prog` returns a value or an error, and the state in either case: what was done before a
  failure stays done.
* `attempt` hands an error to the caller as a value, `wrap` renames it.
* **Frames.** `Keeps R x` says that `x` relates every state to the one it leaves by `R`, however
  it ends.  For a preorder `R` it is preserved by the ways to compose programs
  (`Keeps.bind`, `Keeps.attempt`, `Keeps.wrap`).
* **Triples.** `Triple P x Q E` says that `x`, started where `P` holds, ends with a value and `Q` or
  with an error and `E`.  What a frame leaves alone is kept (`Keeps.triple`).
* **Two runs.** `Agree P x Q E` says that `x`, started in two related states, ends with the same
  result both times, in related states.
* **Results.** `bind_of_ok` and `bind_of_error` run the first part of a program, `of_bind_ok` takes
  a run that ends with a value apart. -/

namespace Programs

/-- A program over the state `σ`. -/
def Prog (ε σ α : Type) : Type := σ → Except ε α × σ

variable {ε ε' σ α β : Type}

instance : Monad (Prog ε σ) where
  pure a := fun s => (.ok a, s)
  bind x f := fun s =>
    match x s with
    | (.ok a, s') => f a s'
    | (.error e, s') => (.error e, s')

namespace Prog

/-- Stop with an error. -/
def fail (e : ε) : Prog ε σ α := fun s => (.error e, s)

/-- Run a program and go on with its result, also when it is an error. -/
def attempt (x : Prog ε σ α) : Prog ε' σ (Except ε α) := fun s => (.ok (x s).1, (x s).2)

/-- Run a program and rename its error. -/
def wrap (f : ε → ε') (x : Prog ε σ α) : Prog ε' σ α := fun s =>
  match x s with
  | (.ok a, s') => (.ok a, s')
  | (.error e, s') => (.error (f e), s')

variable {x : Prog ε σ α} {f : α → Prog ε σ β} {s s' : σ} {a : α} {e : ε}

theorem bind_of_ok (h : x s = (.ok a, s')) : (x >>= f) s = f a s' := by
  simp only [bind, h]

theorem bind_of_error (h : x s = (.error e, s')) : (x >>= f) s = (.error e, s') := by
  simp only [bind, h]

theorem attempt_of_eq {r : Except ε α} (h : x s = (r, s')) :
    (attempt x : Prog ε' σ (Except ε α)) s = (.ok r, s') := by
  simp only [attempt, h]

theorem wrap_of_ok {g : ε → ε'} (h : x s = (.ok a, s')) : wrap g x s = (.ok a, s') := by
  simp only [wrap, h]

theorem wrap_of_error {g : ε → ε'} (h : x s = (.error e, s')) :
    wrap g x s = (.error (g e), s') := by
  simp only [wrap, h]

/-- The two ways in which a program ends. -/
theorem ends (x : Prog ε σ α) (s : σ) :
    (∃ a s', x s = (.ok a, s')) ∨ ∃ e s', x s = (.error e, s') := by
  cases h : x s with
  | mk r s' =>
      cases r with
      | ok a => exact .inl ⟨a, s', rfl⟩
      | error e => exact .inr ⟨e, s', rfl⟩

theorem of_bind_ok {b : β} (h : (x >>= f) s = (.ok b, s')) :
    ∃ a t, x s = (.ok a, t) ∧ f a t = (.ok b, s') := by
  rcases ends x s with ⟨a, t, hx⟩ | ⟨e, t, hx⟩
  · rw [bind_of_ok hx] at h
    exact ⟨a, t, hx, h⟩
  · rw [bind_of_error hx] at h
    cases h

theorem of_wrap_ok {g : ε → ε'} (h : wrap g x s = (.ok a, s')) : x s = (.ok a, s') := by
  rcases ends x s with ⟨b, t, hx⟩ | ⟨e, t, hx⟩
  · rw [wrap_of_ok hx] at h
    cases h
    exact hx
  · rw [wrap_of_error hx] at h
    cases h

/-! ### Frames -/

/-- However the program ends, the state it leaves is related to the one it found. -/
def Keeps (R : σ → σ → Prop) (x : Prog ε σ α) : Prop := ∀ s, R s (x s).2

section frames
variable {R : σ → σ → Prop} [IsPreorder σ R]

theorem Keeps.pure (a : α) : Keeps R (Pure.pure a : Prog ε σ α) := fun s => refl s

theorem Keeps.fail (e : ε) : Keeps R (fail e : Prog ε σ α) := fun s => refl s

theorem Keeps.bind (hx : Keeps R x) (hf : ∀ a, Keeps R (f a)) : Keeps R (x >>= f) := by
  intro s
  have hs := hx s
  rcases ends x s with ⟨a, s', h⟩ | ⟨e, s', h⟩
  · rw [h] at hs
    rw [bind_of_ok h]
    exact IsTrans.trans s s' _ hs (hf a s')
  · rw [h] at hs
    rw [bind_of_error h]
    exact hs

omit [IsPreorder σ R] in
theorem Keeps.attempt (hx : Keeps R x) :
    Keeps R (Prog.attempt x : Prog ε' σ (Except ε α)) := hx

omit [IsPreorder σ R] in
theorem Keeps.wrap (hx : Keeps R x) (g : ε → ε') : Keeps R (Prog.wrap g x) := by
  intro s
  have hs := hx s
  rcases ends x s with ⟨a, s', h⟩ | ⟨e, s', h⟩
  · rw [h] at hs
    rw [wrap_of_ok h]
    exact hs
  · rw [h] at hs
    rw [wrap_of_error h]
    exact hs

end frames

/-! ### Triples -/

/-- From a state with `P` the program ends with a value `a` and `Q a`, or with an error and `E`. -/
def Triple (P : σ → Prop) (x : Prog ε σ α) (Q : α → σ → Prop) (E : σ → Prop) : Prop :=
  ∀ s, P s →
    match x s with
    | (.ok a, s') => Q a s'
    | (.error _, s') => E s'

section triples
variable {P P' : σ → Prop} {Q Q' : α → σ → Prop} {R : β → σ → Prop} {E : σ → Prop}

theorem Triple.pure (h : ∀ s, P s → Q a s) : Triple P (Pure.pure a : Prog ε σ α) Q E := h

theorem Triple.fail (h : ∀ s, P s → E s) : Triple P (fail e : Prog ε σ α) Q E := h

theorem Triple.of_ok (hx : Triple P x Q E) (hs : P s) (h : x s = (.ok a, s')) : Q a s' := by
  have hend := hx s hs
  rw [h] at hend
  exact hend

theorem Triple.of_error (hx : Triple P x Q E) (hs : P s) (h : x s = (.error e, s')) : E s' := by
  have hend := hx s hs
  rw [h] at hend
  exact hend

theorem Triple.bind (hx : Triple P x Q E) (hf : ∀ a, Triple (Q a) (f a) R E) :
    Triple P (x >>= f) R E := by
  intro s hs
  rcases ends x s with ⟨a, s', h⟩ | ⟨e, s', h⟩
  · rw [bind_of_ok h]
    exact hf a s' (hx.of_ok hs h)
  · rw [bind_of_error h]
    exact hx.of_error hs h

theorem Triple.wrap (hx : Triple P x Q E) (g : ε → ε') : Triple P (Prog.wrap g x) Q E := by
  intro s hs
  rcases ends x s with ⟨a, s', h⟩ | ⟨e, s', h⟩
  · rw [wrap_of_ok h]
    exact hx.of_ok hs h
  · rw [wrap_of_error h]
    exact hx.of_error hs h

/-- A fact that does not depend on the state can be used to prove the rest. -/
theorem Triple.of_fact {p : Prop} (h : p → Triple P x Q E) :
    Triple (fun s => p ∧ P s) x Q E :=
  fun s hs => h hs.1 s hs.2

theorem Triple.of_exists {ι : Type} {P : ι → σ → Prop} (h : ∀ i, Triple (P i) x Q E) :
    Triple (fun s => ∃ i, P i s) x Q E :=
  fun s ⟨i, hs⟩ => h i s hs

/-- What is known before may be more, what is needed after a value may be less. -/
theorem Triple.mono (hx : Triple P x Q E) (hP : ∀ s, P' s → P s) (hQ : ∀ a s, Q a s → Q' a s) :
    Triple P' x Q' E := by
  intro s hs
  rcases ends x s with ⟨a, s', h⟩ | ⟨e, s', h⟩
  · rw [h]
    exact hQ a s' (hx.of_ok (hP s hs) h)
  · rw [h]
    exact hx.of_error (hP s hs) h

/-- What holds after a value and after an error holds in the state that is left. -/
theorem Triple.always (hx : Triple P x (fun _ => E) E) (hs : P s) : E (x s).2 := by
  rcases ends x s with ⟨a, s', h⟩ | ⟨e, s', h⟩
  · rw [h]
    exact hx.of_ok hs h
  · rw [h]
    exact hx.of_error hs h

/-- What is needed after an error may be less. -/
theorem Triple.weaken {E' : σ → Prop} (hx : Triple P x Q E) (hE : ∀ s, E s → E' s) :
    Triple P x Q E' := by
  intro s hs
  rcases ends x s with ⟨a, s', h⟩ | ⟨e, s', h⟩
  · rw [h]
    exact hx.of_ok hs h
  · rw [h]
    exact hE s' (hx.of_error hs h)

theorem Triple.and (hx : Triple P x Q E) (hx' : Triple P' x Q' (fun _ => True)) :
    Triple (fun s => P s ∧ P' s) x (fun a s => Q a s ∧ Q' a s) E := by
  intro s hs
  rcases ends x s with ⟨a, s', h⟩ | ⟨e, s', h⟩
  · rw [h]
    exact ⟨hx.of_ok hs.1 h, hx'.of_ok hs.2 h⟩
  · rw [h]
    exact hx.of_error hs.1 h

/-- What is known of every value can be added to what holds after it. -/
theorem Triple.of_value {p : α → Prop} (hx : Triple P x Q E)
    (hp : ∀ s a s', x s = (.ok a, s') → p a) : Triple P x (fun a s => p a ∧ Q a s) E := by
  intro s hs
  rcases ends x s with ⟨a, s', h⟩ | ⟨e, s', h⟩
  · rw [h]
    exact ⟨hp s a s' h, hx.of_ok hs h⟩
  · rw [h]
    exact hx.of_error hs h

/-- A program that changes nothing that matters for `P` keeps it, however it ends. -/
theorem Keeps.triple {R : σ → σ → Prop} (hx : Keeps R x) (hP : ∀ s s', R s s' → P s → P s')
    (hE : ∀ s, P s → E s) : Triple P x (fun _ => P) E := by
  intro s hs
  have hkept := hP s _ (hx s) hs
  rcases ends x s with ⟨a, s', h⟩ | ⟨e, s', h⟩
  · rw [h] at hkept ⊢
    exact hkept
  · rw [h] at hkept ⊢
    exact hE s' hkept

end triples

/-! ### Two runs -/

/-- From states related by `P` the program ends in the same way: with one value `a` and states
related by `Q a`, or with one error and states related by `E`. -/
def Agree (P : σ → σ → Prop) (x : Prog ε σ α) (Q : α → σ → σ → Prop) (E : σ → σ → Prop) : Prop :=
  ∀ s t, P s t →
    (∃ a s' t', x s = (.ok a, s') ∧ x t = (.ok a, t') ∧ Q a s' t') ∨
      ∃ e s' t', x s = (.error e, s') ∧ x t = (.error e, t') ∧ E s' t'

section twoRuns
variable {P : σ → σ → Prop} {Q : α → σ → σ → Prop} {R : β → σ → σ → Prop} {E E' : σ → σ → Prop}

theorem Agree.pure (h : ∀ s t, P s t → Q a s t) : Agree P (Pure.pure a : Prog ε σ α) Q E :=
  fun s t hst => .inl ⟨a, s, t, rfl, rfl, h s t hst⟩

theorem Agree.fail (h : ∀ s t, P s t → E s t) : Agree P (fail e : Prog ε σ α) Q E :=
  fun s t hst => .inr ⟨e, s, t, rfl, rfl, h s t hst⟩

theorem Agree.bind (hx : Agree P x Q E) (hf : ∀ a, Agree (Q a) (f a) R E) :
    Agree P (x >>= f) R E := by
  intro s t hst
  rcases hx s t hst with ⟨a, s', t', hs, ht, h⟩ | ⟨e, s', t', hs, ht, h⟩
  · rw [bind_of_ok hs, bind_of_ok ht]
    exact hf a s' t' h
  · exact .inr ⟨e, s', t', bind_of_error hs, bind_of_error ht, h⟩

theorem Agree.attempt (hx : Agree P x (fun _ => E) E) :
    Agree P (Prog.attempt x : Prog ε' σ (Except ε α)) (fun _ => E) E := by
  intro s t hst
  rcases hx s t hst with ⟨a, s', t', hs, ht, h⟩ | ⟨e, s', t', hs, ht, h⟩
  · exact .inl ⟨.ok a, s', t', attempt_of_eq hs, attempt_of_eq ht, h⟩
  · exact .inl ⟨.error e, s', t', attempt_of_eq hs, attempt_of_eq ht, h⟩

theorem Agree.wrap (hx : Agree P x Q E) (g : ε → ε') : Agree P (Prog.wrap g x) Q E := by
  intro s t hst
  rcases hx s t hst with ⟨a, s', t', hs, ht, h⟩ | ⟨e, s', t', hs, ht, h⟩
  · exact .inl ⟨a, s', t', wrap_of_ok hs, wrap_of_ok ht, h⟩
  · exact .inr ⟨g e, s', t', wrap_of_error hs, wrap_of_error ht, h⟩

/-- After an error less may be known. -/
theorem Agree.of_error (hx : Agree P x Q E) (hE : ∀ s t, E s t → E' s t) : Agree P x Q E' :=
  fun s t hst => (hx s t hst).imp_right fun ⟨e, s', t', hs, ht, h⟩ =>
    ⟨e, s', t', hs, ht, hE s' t' h⟩

end twoRuns

end Prog

end Programs
