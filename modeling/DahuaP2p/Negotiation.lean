import DahuaP2p.Threads
import Mathlib.Data.List.Count

/-! # One negotiation at a time (`bridge.handle`, `bridge.openRealm`, `Client.LockNegotiate`)

The device cannot take part in two RTSP negotiations at once, so that every `handle` goroutine holds
a token, the content of the channel `negotiateSem`, from before its `Dial` to the end of its
negotiation.  The token is given back by `finish`, which is reached from a failed `Dial`, from the
callback of the proxy and from a deferred call, and which a `sync.Once` runs only once.

* **Goroutines.** Every thread runs `handle` once.  The outcome of each call is a choice: `ok`,
  `fail`, and `finished` for the response that ends the negotiation.  A goroutine in `finish` knows
  who called it.
* **The token.** `UnlockNegotiate` takes whatever token is in the channel, its owner's or not, and
  blocks when there is none.  Who owns the token is no part of the state; it is read off the program
  counters (`Pc.owns`) and compared with a log of the calls.
* **Settling.** `WaitSettle` and `DoneNegotiate` use `lastNegotiate`, which has no lock of its
  own; time is a number of milliseconds that never goes back. -/

namespace DahuaP2p.Negotiation

open Threads

/-! ### The model -/

/-- `NegotiateSettle`, in milliseconds. -/
def negotiateSettle : ℕ := 500

def minNegotiateSettle : ℕ := 250

/-- The shared state of the `handle` goroutines. -/
structure Shared where
  /-- `negotiateSem` is full. -/
  token : Bool
  lastNegotiate : Option ℕ
  now : ℕ
deriving DecidableEq, Repr

/-- Where `finish` was called. -/
inductive Caller where
  | dialError
  | callback
  | deferred
deriving DecidableEq, Repr

/-- Where a goroutine is that has made its `finish`. -/
inductive Point where
  | dial
  | setUpstreamDeadline
  | setDeviceDeadline
  | writeRequest
  | response
  | request
  | clearUpstreamDeadline
  | clearDeviceDeadline
  | copyBoth
  | closeDevice
  /-- `finishOnce.Do`: look at the flag, run the function, set the flag. -/
  | once (k : Caller)
  | doneNegotiate (k : Caller)
  | unlockNegotiate (k : Caller)
  | onceDone (k : Caller)
deriving DecidableEq, Repr

inductive Pc where
  | idle
  | setInitialDeadline
  | firstRequest
  | clearInitialDeadline
  | lockNegotiate
  | waitSettle
  | sleep (wake : ℕ)
  /-- After `WaitSettle`, with the flag of `finishOnce`. -/
  | realm (p : Point) (finished : Bool)
  | noRealm
  | closeUpstream
  | returned
deriving DecidableEq, Repr

inductive Choice where
  | ok
  | fail
  | finished
deriving DecidableEq, Repr

/-- Where `finish` returns to, with its flag set. -/
def Caller.ret : Caller → Pc
  | .dialError => .noRealm
  | .callback => .realm .clearUpstreamDeadline true
  | .deferred => .closeUpstream

/-- The steps that read and change no shared state. -/
def advance : Pc → Choice → Option Pc
  | .idle, .ok => some .setInitialDeadline
  | .setInitialDeadline, .ok => some .firstRequest
  | .setInitialDeadline, .fail => some .closeUpstream
  -- `copyRTSPMessage` and `validRTSPRequest`
  | .firstRequest, .ok => some .clearInitialDeadline
  | .firstRequest, .fail => some .closeUpstream
  | .clearInitialDeadline, .ok => some .lockNegotiate
  | .clearInitialDeadline, .fail => some .closeUpstream
  -- the context is done, or the time is over
  | .lockNegotiate, .fail => some .noRealm
  | .realm .dial f, .ok => some (.realm .setUpstreamDeadline f)
  | .realm .dial f, .fail => some (.realm (.once .dialError) f)
  | .realm .setUpstreamDeadline f, .ok => some (.realm .setDeviceDeadline f)
  | .realm .setUpstreamDeadline f, .fail => some (.realm .closeDevice f)
  | .realm .setDeviceDeadline f, .ok => some (.realm .writeRequest f)
  | .realm .setDeviceDeadline f, .fail => some (.realm .closeDevice f)
  -- `proxyRTSP`
  | .realm .writeRequest f, .ok => some (.realm .response f)
  | .realm .writeRequest f, .fail => some (.realm .closeDevice f)
  | .realm .response f, .ok => some (.realm .request f)
  | .realm .response f, .finished => some (.realm (.once .callback) f)
  | .realm .response f, .fail => some (.realm .closeDevice f)
  | .realm .request f, .ok => some (.realm .response f)
  | .realm .request f, .fail => some (.realm .closeDevice f)
  | .realm .clearUpstreamDeadline f, .ok => some (.realm .clearDeviceDeadline f)
  | .realm .clearDeviceDeadline f, .ok => some (.realm .copyBoth f)
  | .realm .copyBoth f, .ok => some (.realm .closeDevice f)
  -- the deferred calls, last one first
  | .realm .closeDevice f, .ok => some (.realm (.once .deferred) f)
  | .realm (.once k) false, .ok => some (.realm (.doneNegotiate k) false)
  | .realm (.once k) true, .ok => some k.ret
  | .realm (.onceDone k) _, .ok => some k.ret
  -- a closed or retired tunnel makes `handle` cancel the bridge
  | .noRealm, .ok => some .closeUpstream
  | .closeUpstream, .ok => some .returned
  | _, _ => none

/-- One action of a `handle` goroutine. -/
def next (s : Shared) : Pc → Choice → Option (Shared × Pc)
  | .lockNegotiate, .ok =>
      if s.token then none else some ({ s with token := true }, .waitSettle)
  | .waitSettle, c =>
      match s.lastNegotiate with
      | none => some (s, .realm .dial false)
      | some last =>
        -- `ok` if the device has been heard of lately
        some (s, .sleep (last + if c = .ok then minNegotiateSettle else negotiateSettle))
  | .sleep wake, .ok => if wake ≤ s.now then some (s, .realm .dial false) else none
  | .realm (.doneNegotiate k) f, .ok =>
      some ({ s with lastNegotiate := some s.now }, .realm (.unlockNegotiate k) f)
  | .realm (.unlockNegotiate k) f, .ok =>
      if s.token then some ({ s with token := false }, .realm (.onceDone k) f) else none
  | pc, c => (advance pc c).map fun pc' => (s, pc')

/-- Time passes. -/
def tick (s : Shared) (d : ℕ) : Option Shared := some { s with now := s.now + d }

/-- Before any negotiation. -/
def start : World Shared Pc := ⟨⟨false, none, 0⟩, fun _ => .idle⟩

def system : System (World Shared Pc) (Label Choice ℕ) := interleave (· = start) next tick

/-! ### The log -/

/-- Successful calls of `LockNegotiate` and completed calls of `UnlockNegotiate`. -/
inductive Event where
  | lock (t : ℕ)
  | unlock (t : ℕ)
deriving DecidableEq, Repr

def Pc.event (t : ℕ) : Pc → Choice → List Event
  | .lockNegotiate, .ok => [.lock t]
  | .realm (.unlockNegotiate _) _, _ => [.unlock t]
  | _, _ => []

def note (log : List Event) (w : World Shared Pc) : Label Choice ℕ → List Event
  | .thread t c => log ++ (w.thr t).event t c
  | .env _ => log

/-- The goroutines with a log of their calls. -/
def loggedSystem : System (World Shared Pc × List Event) (Label Choice ℕ) :=
  system.logged [] note

/-! ### The token and its owner -/

/-- The goroutine owns the token. -/
def Pc.owns : Pc → Bool
  | .waitSettle | .sleep _ => true
  | .realm (.doneNegotiate _) _ | .realm (.unlockNegotiate _) _ => true
  | .realm (.onceDone _) _ => false
  | .realm _ finished => !finished
  | _ => false

/-- The goroutine is between its BIND and the end of its negotiation. -/
def Pc.negotiating : Pc → Bool
  | .realm p finished => (Pc.realm p finished).owns
  | _ => false

/-- The goroutine has settled or is about to, and sends its BIND next. -/
def Pc.binds : Pc → Bool
  | .sleep _ | .realm .dial _ => true
  | _ => false

/-- What an action has to do with the token. -/
inductive TokenAct (t : ℕ) (s : Shared) (pc : Pc) : List Event → Shared → Pc → Prop
  | keep {s' : Shared} {pc' : Pc} : s'.token = s.token → pc'.owns = pc.owns →
      TokenAct t s pc [] s' pc'
  | lock {s' : Shared} {pc' : Pc} : s.token = false → s'.token = true → pc.owns = false →
      pc'.owns = true → TokenAct t s pc [.lock t] s' pc'
  | unlock {s' : Shared} {pc' : Pc} : s.token = true → s'.token = false → pc.owns = true →
      pc'.owns = false → TokenAct t s pc [.unlock t] s' pc'

theorem Caller.ret_spec (k : Caller) : k.ret.owns = false ∧ k.ret.binds = false := by
  cases k <;> exact ⟨rfl, rfl⟩

/-- The steps without shared state leave the token where it is and lead to no BIND. -/
theorem advance_spec {pc pc' : Pc} {c : Choice} (t : ℕ) (h : advance pc c = some pc') :
    pc.event t c = [] ∧ pc'.owns = pc.owns ∧ pc'.binds = false := by
  unfold advance at h
  split at h
  all_goals cases h
  all_goals refine ⟨rfl, ?_⟩
  all_goals first
    | exact ⟨rfl, rfl⟩
    | exact Caller.ret_spec _

theorem next_token {s s' : Shared} {pc pc' : Pc} {c : Choice} (t : ℕ)
    (h : next s pc c = some (s', pc')) : TokenAct t s pc (pc.event t c) s' pc' := by
  unfold next at h
  split at h
  · split at h
    · cases h
    · rename_i hfree
      cases h
      exact .lock (by simpa using hfree) rfl rfl rfl
  · split at h
    · cases h
      exact .keep rfl rfl
    · cases h
      exact .keep rfl rfl
  · split at h
    · cases h
      exact .keep rfl rfl
    · cases h
  · cases h
    exact .keep rfl rfl
  · split at h
    · rename_i hfull
      cases h
      exact .unlock hfull rfl rfl rfl
    · cases h
  · obtain ⟨pc₁, hadv, he⟩ := Option.map_eq_some_iff.mp h
    cases he
    obtain ⟨hevent, howns, -⟩ := advance_spec t hadv
    rw [hevent]
    exact .keep rfl howns

/-- A log in which every `UnlockNegotiate` follows the `LockNegotiate` of the same goroutine, with
nothing between them, and the goroutine whose token is in the channel. -/
inductive Bracketed : Option ℕ → List Event → Prop
  | nil : Bracketed none []
  | lock {log : List Event} (t : ℕ) : Bracketed none log → Bracketed (some t) (log ++ [.lock t])
  | unlock {log : List Event} {t : ℕ} : Bracketed (some t) log →
      Bracketed none (log ++ [.unlock t])

theorem Bracketed.count {owner : Option ℕ} {log : List Event} (h : Bracketed owner log) (t : ℕ) :
    log.count (.unlock t) + (if owner = some t then 1 else 0) = log.count (.lock t) := by
  induction h with
  | nil => rfl
  | lock u _ ih =>
      by_cases hut : u = t
      · simp [hut] at ih ⊢
        omega
      · simp [hut] at ih ⊢
        omega
  | @unlock log u _ ih =>
      by_cases hut : u = t
      · simp [hut] at ih ⊢
        omega
      · simp [hut] at ih ⊢
        omega

/-- The last event before an `UnlockNegotiate` is the `LockNegotiate` of its goroutine. -/
theorem Bracketed.last {t : ℕ} {log : List Event} (h : Bracketed (some t) log) :
    log.getLast? = some (.lock t) := by
  cases h
  simp

/-- The token in the channel is that of the one goroutine that owns it. -/
def Owned (w : World Shared Pc) (log : List Event) : Prop :=
  ∃ owner, Bracketed owner log ∧ w.shared.token = owner.isSome ∧
    ∀ t, (w.thr t).owns = true ↔ owner = some t

theorem Owned.act {w : World Shared Pc} {log es : List Event} {t : ℕ} {s : Shared} {pc : Pc}
    (h : Owned w log) (ha : TokenAct t w.shared (w.thr t) es s pc) :
    Owned ⟨s, Function.update w.thr t pc⟩ (log ++ es) := by
  obtain ⟨owner, hlog, htoken, howner⟩ := h
  cases ha with
  | keep hs hpc =>
      rw [List.append_nil]
      refine ⟨owner, hlog, hs.trans htoken,
        forall_update (P := fun u (p : Pc) => p.owns = true ↔ owner = some u) ?_
          fun u _ => howner u⟩
      rw [hpc]
      exact howner t
  | lock hfree hs hpc hpc' =>
      obtain rfl : owner = none := by simpa [hfree] using htoken.symm
      refine ⟨some t, .lock t hlog, hs,
        forall_update (P := fun u (p : Pc) => p.owns = true ↔ some t = some u) (by simp [hpc'])
          ?_⟩
      intro u hu
      simp [howner u, Ne.symm hu]
  | unlock hfull hs hpc hpc' =>
      obtain rfl : owner = some t := (howner t).mp hpc
      refine ⟨none, .unlock hlog, hs,
        forall_update (P := fun u (p : Pc) => p.owns = true ↔ none = some u) (by simp [hpc']) ?_⟩
      intro u hu
      simp [howner u, Ne.symm hu]

variable {ok : World Shared Pc → Label Choice ℕ → Prop} {w : World Shared Pc} {log : List Event}

theorem owned (h : loggedSystem.Reach (fun p => ok p.1) (w, log)) : Owned w log := by
  refine logged_invariant (I := Owned) ?_ ?_ ?_ h
  · rintro w rfl
    exact ⟨none, .nil, rfl, fun t => by simp [start, Pc.owns]⟩
  · intro w log t c s pc _ hi _ hn
    exact hi.act (next_token t hn)
  · intro w log d s _ hi _ hs
    cases hs
    exact hi

/-! ### Serialized negotiation -/

/-- What holds of the token and of the calls made so far. -/
structure Serialized (w : World Shared Pc) (log : List Event) : Prop where
  /-- No goroutine gives back a token that another one put into the channel. -/
  bracketed : ∃ owner, Bracketed owner log ∧ w.shared.token = owner.isSome
  /-- A token is given back once for each time it is taken, and only by its owner, who does not
  have to wait for it. -/
  counted : ∀ t, log.count (.unlock t) + (w.thr t).owns.toNat = log.count (.lock t)
  owner : ∀ t k f, w.thr t = .realm (.unlockNegotiate k) f →
    log.getLast? = some (.lock t) ∧ w.shared.token = true
  /-- At most one goroutine is between its BIND and the end of its negotiation. -/
  alone : ∀ t u, (w.thr t).negotiating = true → (w.thr u).negotiating = true → t = u
  /-- When no `handle` is running the token is free. -/
  free : (∀ t, w.thr t = .idle ∨ w.thr t = .returned) → w.shared.token = false

theorem Pc.owns_of_negotiating {pc : Pc} (h : pc.negotiating = true) : pc.owns = true := by
  cases pc with
  | realm p f => exact h
  | _ => cases h

/-- Whatever the outcome of their calls and however they are interleaved, the negotiations of all
`handle` goroutines come one after the other, and each of them gives its token back. -/
theorem negotiations_serialized (h : loggedSystem.Reachable (w, log)) : Serialized w log := by
  obtain ⟨owner, hlog, htoken, howner⟩ := @owned (fun _ _ => True) w log h
  refine ⟨⟨owner, hlog, htoken⟩, fun t => ?_, fun t k f hpc => ?_, fun t u ht hu => ?_,
    fun hall => ?_⟩
  · have hcount := hlog.count t
    rw [← hcount]
    by_cases ho : owner = some t
    · simp [(howner t).mpr ho, ho]
    · have howns : (w.thr t).owns = false := by
        rw [← Bool.not_eq_true, howner t]
        exact ho
      simp [howns, ho]
  · obtain rfl : owner = some t := (howner t).mp (by rw [hpc]; rfl)
    exact ⟨hlog.last, htoken⟩
  · have hot := (howner t).mp (Pc.owns_of_negotiating ht)
    have hou := (howner u).mp (Pc.owns_of_negotiating hu)
    simpa using hot.symm.trans hou
  · cases owner with
    | none => exact htoken
    | some t =>
        have howns := (howner t).mpr rfl
        rcases hall t with hpc | hpc
        · simp [hpc, Pc.owns] at howns
        · simp [hpc, Pc.owns] at howns

/-- The labels of some steps of one goroutine. -/
def acts (t : ℕ) (cs : List Choice) : List (Label Choice ℕ) := cs.map (.thread t)

/-- The first goroutine plays a stream, the second one has to wait for it and fails to dial, and the
third one gives up waiting for the second one. -/
def busyScript : List (Label Choice ℕ) :=
  acts 0 (List.replicate 10 .ok ++ [.finished]) ++
    acts 1 (List.replicate 4 .ok) ++
    acts 0 (List.replicate 4 .ok) ++
    acts 1 [.ok, .ok] ++
    acts 2 (List.replicate 4 .ok ++ [.fail]) ++
    [.env 250] ++
    acts 1 ([.ok, .fail] ++ List.replicate 6 .ok) ++
    acts 2 [.ok, .ok] ++
    acts 0 (List.replicate 6 .ok)

/-- Two tokens were taken and both were given back. -/
theorem negotiations_serialized_busy :
    ∃ w log, loggedSystem.exec (fun _ _ => True) (start, []) busyScript = some (w, log) ∧
      log = [.lock 0, .unlock 0, .lock 1, .unlock 1] ∧
      [w.thr 0, w.thr 1, w.thr 2] = [.returned, .returned, .returned] ∧ Serialized w log := by
  have hrun : (loggedSystem.exec (fun _ _ => True) (start, []) busyScript).map (fun p => decide
      (p.2 = [.lock 0, .unlock 0, .lock 1, .unlock 1] ∧
        [p.1.thr 0, p.1.thr 1, p.1.thr 2] = [.returned, .returned, .returned])) = some true := by
    decide +kernel
  obtain ⟨⟨w, log⟩, hw, he⟩ := Option.map_eq_some_iff.mp hrun
  obtain ⟨hlog, hthr⟩ := of_decide_eq_true he
  have hstart : loggedSystem.Reachable (start, []) := .init ⟨rfl, rfl⟩
  exact ⟨w, log, hw, hlog, hthr, negotiations_serialized (hstart.exec hw)⟩

/-! ### Settling -/

/-- A goroutine that is about to send its BIND comes late enough after the last negotiation. -/
def Settled (s : Shared) : Pc → Prop
  | .sleep wake => ∀ last, s.lastNegotiate = some last → last + minNegotiateSettle ≤ wake
  | .realm .dial finished => finished = false ∧
      ∀ last, s.lastNegotiate = some last → last + minNegotiateSettle ≤ s.now
  | _ => True

/-- Time may pass, and another goroutine may end a negotiation if this one does not own the
token. -/
theorem Settled.mono {s s' : Shared} {pc : Pc} (h : Settled s pc) (hnow : s.now ≤ s'.now)
    (hlast : s'.lastNegotiate = s.lastNegotiate ∨ pc.owns = false) : Settled s' pc := by
  cases pc with
  | sleep wake =>
      rcases hlast with hlast | howns
      · intro last hl
        exact h last (hlast ▸ hl)
      · cases howns
  | realm p f =>
      cases p with
      | dial =>
          obtain ⟨rfl, hlate⟩ := h
          rcases hlast with hlast | howns
          · exact ⟨rfl, fun last hl => Nat.le_trans (hlate last (hlast ▸ hl)) hnow⟩
          · cases howns
      | _ => trivial
  | _ => trivial

theorem settled_of_not_binds {s : Shared} {pc : Pc} (h : pc.binds = false) : Settled s pc := by
  cases pc with
  | sleep wake => cases h
  | realm p f =>
      cases p with
      | dial => cases h
      | _ => trivial
  | _ => trivial

/-- The goroutines do not touch the clock. -/
theorem next_now {s s' : Shared} {pc pc' : Pc} {c : Choice} (h : next s pc c = some (s', pc')) :
    s'.now = s.now := by
  unfold next at h
  split at h
  · obtain ⟨_, he⟩ := Option.ite_none_left_eq_some.mp h
    cases he
    rfl
  · split at h <;> cases h <;> rfl
  · obtain ⟨_, he⟩ := Option.ite_none_right_eq_some.mp h
    cases he
    rfl
  · cases h
    rfl
  · obtain ⟨_, he⟩ := Option.ite_none_right_eq_some.mp h
    cases he
    rfl
  · obtain ⟨_, _, he⟩ := Option.map_eq_some_iff.mp h
    cases he
    rfl

/-- Only the owner of the token ends a negotiation, and it dials only after it has settled. -/
theorem next_settled {s s' : Shared} {pc pc' : Pc} {c : Choice} (hs : Settled s pc)
    (h : next s pc c = some (s', pc')) :
    Settled s' pc' ∧ (s'.lastNegotiate = s.lastNegotiate ∨ pc.owns = true) := by
  unfold next at h
  split at h
  · split at h
    · cases h
    · cases h
      exact ⟨trivial, .inl rfl⟩
  · split at h
    · rename_i hnone
      cases h
      exact ⟨⟨rfl, by simp [hnone]⟩, .inl rfl⟩
    · rename_i last hlast
      cases h
      refine ⟨fun l hl => ?_, .inl rfl⟩
      obtain rfl : last = l := by simpa [hlast] using hl
      split <;> simp [minNegotiateSettle, negotiateSettle]
  · split at h
    · rename_i hwake
      cases h
      exact ⟨⟨rfl, fun last hl => Nat.le_trans (hs last hl) hwake⟩, .inl rfl⟩
    · cases h
  · cases h
    exact ⟨trivial, .inr rfl⟩
  · split at h
    · cases h
      exact ⟨trivial, .inl rfl⟩
    · cases h
  · obtain ⟨pc₁, hadv, he⟩ := Option.map_eq_some_iff.mp h
    cases he
    exact ⟨settled_of_not_binds (advance_spec 0 hadv).2.2, .inl rfl⟩

theorem owner_unique (h : system.Reach ok w) {t u : ℕ} (ht : (w.thr t).owns = true)
    (hu : (w.thr u).owns = true) : t = u := by
  obtain ⟨log, hlog⟩ : ∃ log, loggedSystem.Reach (fun p => ok p.1) (w, log) := h.exists_log
  obtain ⟨owner, -, -, howner⟩ := owned hlog
  simpa using ((howner t).mp ht).symm.trans ((howner u).mp hu)

/-- **Settle times are kept**: a goroutine that sends its BIND does so at least
`minNegotiateSettle` after the end of the last negotiation. -/
theorem bind_settled (h : system.Reach ok w) (t : ℕ) : Settled w.shared (w.thr t) := by
  refine interleave_invariant (I := fun w => ∀ t, Settled w.shared (w.thr t)) ?_ ?_ ?_ h t
  · rintro w rfl t
    trivial
  · intro w t c s pc hr hi _ hn
    obtain ⟨hpc, hlast⟩ := next_settled (hi t) hn
    refine forall_update (P := fun _ (p : Pc) => Settled s p) hpc fun u hu => ?_
    refine (hi u).mono (next_now hn).ge (hlast.imp_right fun howns => ?_)
    rw [← Bool.not_eq_true]
    exact fun hou => hu (owner_unique hr hou howns)
  · intro w d s _ hi _ hs t
    cases hs
    exact (hi t).mono (Nat.le_add_right _ _) (.inl rfl)

end DahuaP2p.Negotiation
