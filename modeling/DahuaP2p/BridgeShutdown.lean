import DahuaP2p.BridgeLife

/-! # The bridge comes to its end

`returned_clean` says what is left when `run` returns; this is about why it returns.

* `cancels`: once the tunnel is closed the context is done, or somebody is about to cancel it.
  `BridgeStops` has what follows from it for the process.
* `shutdown_bounded`, `shutdown_progress`: while `run` waits for its goroutines, each of them has
  only a few steps left, and one of them can go on without any help from a client or the device.

The token of the negotiations is never missing when it is given back, since every run of the bridge
is a run of the negotiations (`negotiationOf_reachable`). -/

namespace DahuaP2p.Life

open Threads

variable {limit : ℕ} {w : World Shared Pc} {s s' : Shared} {pc pc' : Pc} {thr : ℕ → Pc} {t : ℕ}

/-! ### The negotiations inside -/

/-- Where the goroutine is in its negotiation. -/
def Pc.control : Pc → Negotiation.Pc
  | idle => .idle
  | handle _ n => n
  | fire _ f => .realm .dial f
  | release | done | gone => .returned

/-- The negotiations of the bridge. -/
def negotiationOf (w : World Shared Pc) : World Negotiation.Shared Negotiation.Pc :=
  ⟨w.shared.negotiation, fun t => (w.thr t).control⟩

@[simp] theorem effect_negotiation (c : ConnId) (n : Negotiation.Pc) (s : Shared) :
    (effect c n s).negotiation = s.negotiation := by
  rcases effect_cases c n s with heq | heq | heq <;> rw [heq]
  rfl

/-- A goroutine takes a step in its negotiation, or does nothing there. -/
theorem Acts.negotiation_cases (h : Acts s pc s' pc') :
    (s'.negotiation = s.negotiation ∧ pc'.control = pc.control) ∨
      ∃ ch, Negotiation.next s.negotiation pc.control ch = some (s'.negotiation, pc'.control) := by
  cases h with
  | control c n n' ch g _ hn =>
      rw [effect_negotiation]
      exact Or.inr ⟨ch, hn⟩
  | silent c f pc' _ hfire hno =>
      cases hon : s.onClose with
      | true =>
          rw [hfire hon]
          exact Or.inl ⟨rfl, rfl⟩
      | false =>
          rw [hno hon]
          exact Or.inr ⟨.fail, rfl⟩
  | retire | fire => exact Or.inr ⟨.fail, rfl⟩
  | start | untrack | release | done => exact Or.inl ⟨rfl, rfl⟩

theorem control_update (thr : ℕ → Pc) (t : ℕ) (pc : Pc) :
    (fun u => (Function.update thr t pc u).control) =
      Function.update (fun u => (thr u).control) t pc.control :=
  Function.comp_update Pc.control thr t pc

theorem MainActs.negotiation {p : MainPc} (h : MainActs limit s p s') :
    s'.negotiation = s.negotiation := by
  cases h with
  | closeUnused | closeClient =>
      obtain ⟨closed, main, _, heq⟩ := closeClient_frame s _
      rw [heq]
  | _ => rfl

/-- **Every run of the bridge is a run of the negotiations.** -/
theorem negotiationOf_reachable (h : (system limit).Reachable w) :
    Negotiation.system.Reachable (negotiationOf w) := by
  refine System.Reachable.simulate (f := negotiationOf) ?_ ?_ h
  · rintro _ rfl
    rfl
  · intro w l w' _ hs
    cases l with
    | thread t ch =>
        obtain ⟨s, pc, hn, rfl⟩ := interleave_step_thread.mp hs
        simp only [negotiationOf, control_update]
        rcases (next_acts hn).negotiation_cases with ⟨hg, hpc⟩ | ⟨c, hc⟩
        · refine Or.inl ?_
          rw [hg, hpc, Function.update_eq_self]
        · exact Or.inr ⟨.thread t c, interleave_step_thread.mpr ⟨_, _, hc, rfl⟩⟩
    | env e =>
        obtain ⟨s, he, rfl⟩ := interleave_step_env.mp hs
        rcases stepEnv_acts he with ha | ha
        · refine Or.inl ?_
          simp only [negotiationOf, ha.negotiation]
        · cases ha with
          | tick d => exact Or.inr ⟨.env d, rfl⟩
          | _ => exact Or.inl rfl

/-- The token is in the channel while some goroutine owns it, and only then. -/
theorem token_owned (h : (system limit).Reachable w) :
    (∀ t, (w.thr t).control.owns = true → w.shared.negotiation.token = true) ∧
      (w.shared.negotiation.token = true → ∃ t, (w.thr t).control.owns = true) := by
  obtain ⟨log, hlog⟩ : ∃ log, Negotiation.loggedSystem.Reachable (negotiationOf w, log) :=
    System.Reach.exists_log (negotiationOf_reachable h)
  obtain ⟨owner, _, htoken, howner⟩ := @Negotiation.owned (fun _ _ => True) _ _ hlog
  have htoken : w.shared.negotiation.token = owner.isSome := htoken
  refine ⟨fun t ht => ?_, fun hset => ?_⟩
  · rw [htoken, (howner t).mp ht]
    rfl
  · rw [htoken] at hset
    obtain ⟨t, rfl⟩ := Option.isSome_iff_exists.mp hset
    exact ⟨t, (howner t).mpr rfl⟩

/-! ### Who cancels the context -/

/-- The goroutine is about to call the callback. -/
def Pc.fires : Pc → Bool
  | fire _ _ => true
  | _ => false

def MainPc.fires : MainPc → Bool
  | callback _ => true
  | _ => false

/-- After a closed tunnel the context is done, or somebody is about to cancel it; before
`SetOnClose` it is `run` itself that will find the tunnel closed. -/
def Cancels (s : Shared) (thr : ℕ → Pc) : Prop :=
  s.closed = true → s.main = .setOnClose ∨ s.ctxDone = true ∨ 0 < s.firing ∨
    s.main.fires = true ∨ ∃ t, (thr t).fires = true

/-- While `run` does nothing about it. -/
theorem Cancels.of_main (h : Cancels s thr) (hc : s.closed = true) (hm : s.main ≠ .setOnClose)
    (hf : s.main.fires = false) :
    s.ctxDone = true ∨ 0 < s.firing ∨ ∃ t, (thr t).fires = true := by
  rcases h hc with h | h | h | h | h
  · exact absurd h hm
  · exact Or.inl h
  · exact Or.inr (Or.inl h)
  · rw [hf] at h
    cases h
  · exact Or.inr (Or.inr h)

theorem Cancels.of_some (h : s.ctxDone = true ∨ 0 < s.firing ∨ ∃ t, (thr t).fires = true) :
    Cancels s thr := by
  intro _
  rcases h with h | h | h
  · exact Or.inr (Or.inl h)
  · exact Or.inr (Or.inr (Or.inl h))
  · exact Or.inr (Or.inr (Or.inr (Or.inr h)))

/-- `Close` finds the tunnel closed, or calls the callback, which is installed by then. -/
theorem closeClient_cancels (hi : Cancels s thr) (hs : Staged s) (r : Resume)
    (hm : s.main = .closeUnused ∨ s.main = .closeClient) : Cancels (closeClient s r) thr := by
  have hmain : s.main ≠ .setOnClose ∧ s.main.fires = false ∧ s.main ≠ .connect ∧
      s.main.ends = false := by
    rcases hm with hm | hm <;> rw [hm] <;> exact ⟨nofun, rfl, nofun, rfl⟩
  unfold closeClient
  split
  · rename_i hc
    exact .of_some (hi.of_main hc hmain.1 hmain.2.1)
  · rename_i hopen
    have hconnected : s.connected = true := by
      by_contra hno
      rcases (hs.unconnected (Bool.of_not_eq_true hno)).2 with h | h
      · exact hmain.2.2.1 h
      · rw [hmain.2.2.2] at h
        cases h
    have hon : s.onClose = true := by
      rcases hs.installed hconnected with h | h | h
      · exact absurd h hmain.1
      · exact h
      · exact absurd h hopen
    rw [if_pos hon]
    exact fun _ => Or.inr (Or.inr (Or.inr (Or.inl rfl)))

theorem MainActs.cancels {p : MainPc} (h : MainActs limit s p s') (hp : s.main = p)
    (hs : Staged s) (hi : Cancels s thr) : Cancels s' thr := by
  cases h with
  | connect => exact fun _ => Or.inl rfl
  | alreadyClosed _ => exact fun _ => Or.inr (Or.inr (Or.inr (Or.inl rfl)))
  | install hopen => exact fun hc => absurd hc (by simp [hopen])
  | callback r => exact fun _ => Or.inr (Or.inl rfl)
  | closeUnused => exact closeClient_cancels hi hs _ (Or.inl hp)
  | closeClient => exact closeClient_cancels hi hs _ (Or.inr hp)
  | cancel => exact fun _ => Or.inr (Or.inl rfl)
  | _ => exact fun hc => Cancels.of_some (hi.of_main hc (by rw [hp]; nofun) (by rw [hp]; rfl)) hc

theorem OtherActs.cancels (h : OtherActs s s') (hs : Staged s) (hi : Cancels s thr) :
    Cancels s' thr := by
  cases h with
  | signal | fire => exact fun _ => Or.inr (Or.inl rfl)
  | close hconnected hopen =>
      intro _
      rcases hs.installed hconnected with h | h | h
      · exact Or.inl h
      · exact Or.inr (Or.inr (Or.inl (by simp [h])))
      · rw [hopen] at h
        cases h
  | watcher | tick => exact hi

/-- A goroutine that was not about to call the callback moves. -/
theorem Cancels.move (hi : Cancels s thr) (hmain : s'.main = s.main)
    (hclosed : s'.closed = s.closed) (hfiring : s'.firing = s.firing)
    (hdone : s.ctxDone = true → s'.ctxDone = true) (ht : (thr t).fires = false) :
    Cancels s' (Function.update thr t pc) := by
  intro hc
  rw [hmain, hfiring]
  rcases hi (hclosed ▸ hc) with h | h | h | h | ⟨u, hu⟩
  · exact Or.inl h
  · exact Or.inr (Or.inl (hdone h))
  · exact Or.inr (Or.inr (Or.inl h))
  · exact Or.inr (Or.inr (Or.inr (Or.inl h)))
  · have hut : u ≠ t := by
      rintro rfl
      rw [ht] at hu
      cases hu
    exact Or.inr (Or.inr (Or.inr (Or.inr ⟨u, by rwa [Function.update_of_ne hut]⟩)))

/-- Once there is a connection the callback is installed. -/
theorem Staged.onClose_of_conn (hs : Staged s) (ht : Tracking s thr) {c : ConnId}
    (hconn : (thr t).conn = some c) (hopen : s.closed = false) : s.onClose = true := by
  have hne : s.accepted ≠ 0 := Nat.ne_of_gt (Nat.zero_lt_of_lt (ht.conn_lt t c hconn).1)
  have hconnected : s.connected = true := by
    by_contra hno
    exact hne (hs.unconnected (Bool.of_not_eq_true hno)).1
  rcases hs.installed hconnected with h | h | h
  · exact absurd (hs.early (by rw [h]; rfl)).1 hne
  · exact h
  · rw [hopen] at h
    cases h

theorem Acts.cancels (h : Acts s (thr t) s' pc) (hs : Staged s) (htr : Tracking s thr)
    (hi : Cancels s thr) : Cancels s' (Function.update thr t pc) := by
  generalize hp : thr t = p at h
  cases h with
  | control c n n' ch g _ hn =>
      refine hi.move ?_ ?_ ?_ (fun h => ?_) (by rw [hp]; rfl)
      all_goals rcases effect_cases c n { s with negotiation := g } with heq | heq | heq
      all_goals rw [heq]
      all_goals first
        | rfl
        | exact h
  | silent c f pc' hopen hfire _ =>
      have hon := hs.onClose_of_conn htr (t := t) (c := c) (by rw [hp]; rfl) hopen
      rw [hfire hon]
      exact fun _ => Or.inr (Or.inr (Or.inr (Or.inr ⟨t, by rw [Function.update_self]; rfl⟩)))
  | fire c f => exact fun _ => Or.inr (Or.inl rfl)
  | start | retire | untrack | release | done =>
      exact hi.move rfl rfl rfl id (by rw [hp]; rfl)

theorem cancels (h : (system limit).Reachable w) : Cancels w.shared w.thr := by
  refine system_invariant (I := fun w => Cancels w.shared w.thr) nofun ?_ ?_ ?_ h
  · exact fun s thr t s' pc hr hi ha => ha.cancels (staged hr) (tracking hr) hi
  · exact fun s thr p s' hr hi hp ha => ha.cancels hp (staged hr) hi
  · exact fun s thr s' hr hi ha => ha.cancels (staged hr) hi

/-- `run` does not take back that the listener is closed or the context done. -/
theorem MainActs.stop_mono {p : MainPc} (h : MainActs limit s p s') :
    (s.listenerClosed = true → s'.listenerClosed = true) ∧
      (s.ctxDone = true → s'.ctxDone = true) := by
  cases h with
  | callback | cancel => exact ⟨id, fun _ => rfl⟩
  | closeListener => exact ⟨fun _ => rfl, id⟩
  | closeUnused | closeClient =>
      obtain ⟨closed, main, _, heq⟩ := closeClient_frame s _
      rw [heq]
      exact ⟨id, id⟩
  | _ => exact ⟨id, id⟩

/-! ### The shutdown -/

/-- The steps that are left in a negotiation whose connection and tunnel are closed. -/
def stepsLeft : Negotiation.Pc → ℕ
  | .idle => 28
  | .setInitialDeadline => 27
  | .firstRequest => 26
  | .clearInitialDeadline => 25
  | .lockNegotiate => 24
  | .waitSettle => 23
  | .sleep _ => 22
  | .realm .dial _ => 21
  | .realm .setUpstreamDeadline _ => 20
  | .realm .setDeviceDeadline _ => 19
  | .realm .writeRequest _ => 18
  | .realm .request _ => 18
  | .realm .response _ => 17
  | .realm (.once .deferred) _ => 8
  | .realm (.once _) _ => 16
  | .realm (.doneNegotiate .deferred) _ => 7
  | .realm (.doneNegotiate _) _ => 15
  | .realm (.unlockNegotiate .deferred) _ => 6
  | .realm (.unlockNegotiate _) _ => 14
  | .realm (.onceDone .deferred) _ => 5
  | .realm (.onceDone _) _ => 13
  | .realm .clearUpstreamDeadline _ => 12
  | .realm .clearDeviceDeadline _ => 11
  | .realm .copyBoth _ => 10
  | .realm .closeDevice _ => 9
  | .noRealm => 5
  | .closeUpstream => 4
  | .returned => 3

/-- The steps that are left for a goroutine then. -/
def Pc.remaining : Pc → ℕ
  | handle _ n => stepsLeft n
  | fire _ _ => 17
  | release => 2
  | done => 1
  | idle | gone => 0

theorem Pc.remaining_le (pc : Pc) : pc.remaining ≤ 28 := by
  cases pc with
  | handle c n =>
      change stepsLeft n ≤ 28
      unfold stepsLeft
      split <;> decide
  | _ => simp [remaining]

/-- `finish` goes on step by step, wherever it was called. -/
theorem finish_stepsLeft (k : Negotiation.Caller) (f : Bool) :
    stepsLeft (.realm (.doneNegotiate k) f) < stepsLeft (.realm (.once k) f) ∧
      stepsLeft (.realm (.unlockNegotiate k) f) < stepsLeft (.realm (.doneNegotiate k) f) ∧
      stepsLeft (.realm (.onceDone k) f) < stepsLeft (.realm (.unlockNegotiate k) f) ∧
      stepsLeft k.ret < stepsLeft (.realm (.onceDone k) f) ∧
      stepsLeft k.ret < stepsLeft (.realm (.once k) f) := by
  cases k <;> simp [stepsLeft, Negotiation.Caller.ret]

theorem advance_stepsLeft {c : ConnId} {n n' : Negotiation.Pc} {ch : Negotiation.Choice}
    (hup : s.upstreamClosed c = true) (ha : allowed s c n ch = true)
    (h : Negotiation.advance n ch = some n') : stepsLeft n' < stepsLeft n := by
  unfold Negotiation.advance at h
  split at h
  all_goals cases h
  all_goals first
    -- a response to a closed connection
    | (simp [allowed, hup] at ha; done)
    | exact (finish_stepsLeft _ _).1
    | exact (finish_stepsLeft _ _).2.2.2.1
    | exact (finish_stepsLeft _ _).2.2.2.2
    | simp [stepsLeft]

theorem next_stepsLeft {c : ConnId} {n n' : Negotiation.Pc} {ch : Negotiation.Choice}
    {g : Negotiation.Shared} (hup : s.upstreamClosed c = true) (ha : allowed s c n ch = true)
    (h : Negotiation.next s.negotiation n ch = some (g, n')) : stepsLeft n' < stepsLeft n := by
  unfold Negotiation.next at h
  split at h
  · obtain ⟨_, h⟩ := Option.ite_none_left_eq_some.mp h
    cases h
    decide
  · split at h <;> cases h
    · decide
    · simp [stepsLeft]
  · obtain ⟨_, h⟩ := Option.ite_none_right_eq_some.mp h
    cases h
    simp [stepsLeft]
  · cases h
    exact (finish_stepsLeft _ _).2.1
  · obtain ⟨_, h⟩ := Option.ite_none_right_eq_some.mp h
    cases h
    exact (finish_stepsLeft _ _).2.2.1
  · obtain ⟨n', hadv, he⟩ := Option.map_eq_some_iff.mp h
    cases he
    exact advance_stepsLeft hup ha hadv

/-- What `shutdown` has to wait for once it has closed the connections: the steps of the goroutines
that run, and those of the ones that have still to start. -/
def Waits (w : World Shared Pc) (n : ℕ) : Prop :=
  ∃ m, Weighed Pc.remaining w.thr m ∧ m + 29 * w.shared.started.length = n

/-- `shutdown` has closed the connections. -/
theorem upstreamClosed_of_conn (h : (system limit).Reachable w)
    (hm : w.shared.main.pending = some []) {c : ConnId} (hc : (w.thr t).conn = some c) :
    w.shared.upstreamClosed c = true :=
  (swept h [] hm c (((tracking h).tracked c).mpr (Or.inr (Or.inl ⟨t, hc⟩)))).resolve_left nofun

/-- A goroutine starts, or has less left than before. -/
theorem Acts.remaining_lt (h : Acts s pc s' pc')
    (hup : ∀ c, pc.conn = some c → s.upstreamClosed c = true) :
    pc'.remaining + 29 * s'.started.length < pc.remaining + 29 * s.started.length := by
  cases h with
  | start c hc =>
      have hlen := List.length_erase_of_mem hc
      have hpos := List.length_pos_of_mem hc
      simp only [Pc.remaining, stepsLeft, hlen]
      omega
  | control c n n' ch g ha hn =>
      have hless := next_stepsLeft (hup c rfl) ha hn
      simp only [Pc.remaining, (effect_frame c n s g).started]
      omega
  | silent c f pc' _ hfire hno =>
      have hless : pc'.remaining < (Pc.handle c (.realm .dial f)).remaining := by
        cases hon : s.onClose with
        | true => simp [hfire hon, Pc.remaining, stepsLeft]
        | false => simp [hno hon, Pc.remaining, stepsLeft]
      exact Nat.add_lt_add_right hless _
  | retire | untrack | fire | release | done => simp [Pc.remaining, stepsLeft]

theorem Acts.waits {n : ℕ} (h : Acts s (thr t) s' pc)
    (hup : ∀ c, (thr t).conn = some c → s.upstreamClosed c = true) (hi : Waits ⟨s, thr⟩ n) :
    ∃ m, m < n ∧ Waits ⟨s', Function.update thr t pc⟩ m := by
  obtain ⟨k, hk, rfl⟩ := hi
  obtain ⟨m, hm, hsum⟩ := hk.update t pc
  have hless := h.remaining_lt hup
  refine ⟨_, ?_, m, hm, rfl⟩
  dsimp only at hsum ⊢
  omega

/-- `run` does not go back, and starts no more goroutines. -/
theorem MainActs.pending_nil {p : MainPc} (h : MainActs limit s p s')
    (hm : p.pending = some []) : s'.main.pending = some [] ∧ s'.started = s.started := by
  cases h with
  | closing c rest => cases hm
  | closingEnd | wait | closeListener | cancel => exact ⟨rfl, rfl⟩
  | _ => cases hm

theorem OtherActs.pending_nil (h : OtherActs s s') :
    s'.main.pending = s.main.pending ∧ s'.started = s.started := by
  cases h <;> exact ⟨rfl, rfl⟩

theorem Acts.main (h : Acts s pc s' pc') : s'.main = s.main := by
  cases h with
  | control c n n' ch g _ _ =>
      rcases effect_cases c n { s with negotiation := g } with heq | heq | heq
      all_goals rw [heq]
      rfl
  | _ => rfl

/-- The step is one of a goroutine that `serve` has started. -/
def ofGoroutine : Label Choice Env → Bool
  | .thread _ _ => true
  | .env _ => false

theorem exec_waits {ls : List (Label Choice Env)} {w' : World Shared Pc} {n : ℕ}
    (h : (system limit).Reachable w) (hm : w.shared.main.pending = some []) (hi : Waits w n)
    (hs : (system limit).exec (fun _ _ => True) w ls = some w') :
    ls.countP ofGoroutine ≤ n := by
  induction ls generalizing w n with
  | nil => exact Nat.zero_le n
  | cons l ls ih =>
      rw [System.exec, if_pos trivial] at hs
      split at hs
      · cases hs
      rename_i v hv
      have hreach : (system limit).Reachable v := h.step hv
      cases l with
      | thread t ch =>
          obtain ⟨s, pc, hn, rfl⟩ := interleave_step_thread.mp hv
          have ha := next_acts hn
          obtain ⟨m, hless, hwaits⟩ := ha.waits (fun c hc => upstreamClosed_of_conn h hm hc) hi
          have := ih hreach (by rw [ha.main]; exact hm) hwaits hs
          rw [List.countP_cons_of_pos rfl]
          omega
      | env e =>
          obtain ⟨s, he, rfl⟩ := interleave_step_env.mp hv
          have hsame : s.main.pending = some [] ∧ s.started = w.shared.started := by
            rcases stepEnv_acts he with ha | ha
            · exact ha.pending_nil hm
            · exact ⟨ha.pending_nil.1.trans hm, ha.pending_nil.2⟩
          rw [List.countP_cons_of_neg Bool.false_ne_true]
          refine ih hreach hsame.1 ?_ hs
          simp only [Waits, hsame.2]
          exact hi

/-- **The shutdown is bounded.**  Once `shutdown` has closed the tunnel and the connections, all
goroutines together take no more than 29 steps for each one that has not called `b.wg.Done` yet,
whatever the clients, the device and the signals do. -/
theorem shutdown_bounded {ls : List (Label Choice Env)} {w' : World Shared Pc}
    (h : (system limit).Reachable w) (hm : w.shared.main.pending = some [])
    (hs : (system limit).exec (fun _ _ => True) w ls = some w') :
    ls.countP ofGoroutine ≤ 29 * w.shared.wg := by
  obtain ⟨_, n, hn, hwg⟩ := counts h
  have hdead : ∀ pc : Pc, ¬ pc.live = true → pc.remaining = 0 := by
    intro pc hdead
    cases pc with
    | idle | gone => rfl
    | _ => exact absurd rfl hdead
  obtain ⟨m, hle, hweighed⟩ := hn.weighed Pc.remaining_le hdead
  have hsteps := exec_waits h hm ⟨m, hweighed, rfl⟩ hs
  omega

theorem shutdown_bounded_quit :
    ∃ w w', (system 1).exec (fun _ _ => True) start signalScript = some w ∧
      (system 1).exec (fun _ _ => True) w quitScript = some w' ∧ w.shared.wg = 1 ∧
      w'.shared.main = .returned ∧ quitScript.countP ofGoroutine ≤ 29 * w.shared.wg := by
  have hrun : ((system 1).exec (fun _ _ => True) start signalScript).bind (fun w =>
      ((system 1).exec (fun _ _ => True) w quitScript).map fun w' =>
        decide (w.shared.main = .wait ∧ w.shared.wg = 1 ∧ w'.shared.main = .returned)) =
      some true := by
    decide +kernel
  obtain ⟨w, hw, hrun⟩ := Option.bind_eq_some_iff.mp hrun
  obtain ⟨w', hw', he⟩ := Option.map_eq_some_iff.mp hrun
  obtain ⟨hm, hwg, hreturned⟩ := of_decide_eq_true he
  exact ⟨w, w', hw, hw', hwg, hreturned,
    shutdown_bounded (start_reachable.exec hw) (by rw [hm]; rfl) hw'⟩

/-! ### Nobody has to help -/

/-- The outcomes of a step of `handle` that come about without the client, the device and the end of
a time limit. -/
def unaided (s : Shared) (c : ConnId) : Negotiation.Pc → Negotiation.Choice → Bool
  | .firstRequest, .fail => s.upstreamClosed c
  | .lockNegotiate, .fail => s.ctxDone
  | .realm .dial _, .fail => s.closed
  | .realm .writeRequest _, .fail => s.closed
  | .realm .response _, .fail => s.closed
  | .realm .request _, .fail => s.upstreamClosed c
  | .realm .copyBoth _, .ok => s.upstreamClosed c
  | .firstRequest, _ => false
  | .realm .dial _, _ => false
  | .realm .writeRequest _, _ => false
  | .realm .response _, _ => false
  | .realm .request _, _ => false
  | _, _ => true

/-- The steps for which nobody outside of the bridge has to do anything.  Time has to pass only for
a goroutine in `WaitSettle`. -/
def Unaided (w : World Shared Pc) : Label Choice Env → Prop
  | .thread t (.control ch) => ∃ c n, w.thr t = .handle c n ∧ unaided w.shared c n ch = true
  | .thread _ .go => True
  | .thread _ (.start _) => True
  | .env (.tick d) => 0 < d ∧ ∃ t c wake, w.thr t = .handle c (.sleep wake) ∧
      wake = w.shared.negotiation.now + d
  | _ => False

theorem idle_thread (h : (system limit).Reachable w) : ∃ t, ∀ u, t ≤ u → w.thr u = .idle := by
  refine eventually_idle ?_ h
  rintro w rfl
  exact ⟨0, fun _ _ => rfl⟩

/-- A step of `handle` that nobody has to help with. -/
theorem unaided_control {c : ConnId} {n n' : Negotiation.Pc} (ch : Negotiation.Choice)
    {g : Negotiation.Shared} (ht : w.thr t = .handle c n) (hu : unaided w.shared c n ch = true)
    (ha : allowed w.shared c n ch = true)
    (hn : Negotiation.next w.shared.negotiation n ch = some (g, n')) :
    ∃ l w', Unaided w l ∧ (system limit).step w l = some w' := by
  have hstep : next w.shared (w.thr t) (.control ch) =
      some (effect c n { w.shared with negotiation := g }, .handle c n') := by
    rw [ht]
    simp only [next, ha, if_true, hn, Option.map_some]
  exact ⟨.thread t (.control ch), _, ⟨c, n, ht, hu⟩,
    interleave_step_thread.mpr ⟨_, _, hstep, rfl⟩⟩

theorem unaided_go {s' : Shared} (h : next w.shared (w.thr t) .go = some (s', pc)) :
    ∃ l w', Unaided w l ∧ (system limit).step w l = some w' :=
  ⟨.thread t .go, _, trivial, interleave_step_thread.mpr ⟨_, _, h, rfl⟩⟩

theorem unaided_sleep {c : ConnId} {wake : ℕ} (ht : w.thr t = .handle c (.sleep wake)) :
    ∃ l w', Unaided w l ∧ (system limit).step w l = some w' := by
  by_cases hwake : wake ≤ w.shared.negotiation.now
  · exact unaided_control .ok ht rfl rfl (if_pos hwake)
  · exact ⟨.env (.tick (wake - w.shared.negotiation.now)), _, ⟨by omega, t, c, wake, ht, by omega⟩,
      interleave_step_env.mpr ⟨_, rfl, rfl⟩⟩

theorem unaided_realm (h : (system limit).Reachable w) (hm : w.shared.main = .wait) {c : ConnId}
    {p : Negotiation.Point} {f : Bool} (ht : w.thr t = .handle c (.realm p f)) :
    ∃ l w', Unaided w l ∧ (system limit).step w l = some w' := by
  have hclosed : w.shared.closed = true := (staged h).shut (by rw [hm]; rfl)
  have hup : w.shared.upstreamClosed c = true :=
    upstreamClosed_of_conn h (by rw [hm]; rfl) (t := t) (by rw [ht]; rfl)
  cases p with
  | dial => exact unaided_control .fail ht hclosed rfl rfl
  | writeRequest => exact unaided_control .fail ht hclosed rfl rfl
  | response => exact unaided_control .fail ht hclosed rfl rfl
  | request => exact unaided_control .fail ht hup rfl rfl
  | setUpstreamDeadline | setDeviceDeadline => exact unaided_control .fail ht rfl rfl rfl
  | copyBoth => exact unaided_control .ok ht hup rfl rfl
  | once k => cases f <;> exact unaided_control .ok ht rfl rfl rfl
  | unlockNegotiate k =>
      have howns : (w.thr t).control.owns = true := by
        rw [ht]
        rfl
      exact unaided_control .ok ht rfl rfl (if_pos ((token_owned h).1 t howns))
  | clearUpstreamDeadline | clearDeviceDeadline | closeDevice | doneNegotiate k | onceDone k =>
      exact unaided_control .ok ht rfl rfl rfl

theorem unaided_waitSettle {c : ConnId} (ht : w.thr t = .handle c .waitSettle) :
    ∃ l w', Unaided w l ∧ (system limit).step w l = some w' := by
  cases hlast : w.shared.negotiation.lastNegotiate with
  | none => exact unaided_control .ok ht rfl rfl (by rw [Negotiation.next, hlast])
  | some last => exact unaided_control .ok ht rfl rfl (by rw [Negotiation.next, hlast])

/-- The token is free, or the goroutine that owns it can go on. -/
theorem unaided_lock (h : (system limit).Reachable w) (hm : w.shared.main = .wait) {c : ConnId}
    (ht : w.thr t = .handle c .lockNegotiate) :
    ∃ l w', Unaided w l ∧ (system limit).step w l = some w' := by
  by_cases htoken : w.shared.negotiation.token = true
  · obtain ⟨u, hu⟩ := (token_owned h).2 htoken
    cases hpc : w.thr u with
    | fire d f => exact unaided_go (t := u) (by rw [hpc]; rfl)
    | handle d n =>
        rw [hpc] at hu
        cases n with
        | waitSettle => exact unaided_waitSettle hpc
        | sleep wake => exact unaided_sleep hpc
        | realm p f => exact unaided_realm h hm hpc
        | _ => cases hu
    | _ =>
        rw [hpc] at hu
        cases hu
  · exact unaided_control .ok ht rfl rfl (if_neg htoken)

theorem unaided_handle (h : (system limit).Reachable w) (hm : w.shared.main = .wait) {c : ConnId}
    {n : Negotiation.Pc} (ht : w.thr t = .handle c n) :
    ∃ l w', Unaided w l ∧ (system limit).step w l = some w' := by
  have hup : w.shared.upstreamClosed c = true :=
    upstreamClosed_of_conn h (by rw [hm]; rfl) (t := t) (by rw [ht]; rfl)
  cases n with
  | idle | noRealm | closeUpstream => exact unaided_control .ok ht rfl rfl rfl
  | setInitialDeadline | clearInitialDeadline => exact unaided_control .fail ht rfl rfl rfl
  | firstRequest => exact unaided_control .fail ht hup rfl rfl
  | lockNegotiate => exact unaided_lock h hm ht
  | waitSettle => exact unaided_waitSettle ht
  | sleep wake => exact unaided_sleep ht
  | realm p f => exact unaided_realm h hm ht
  | returned => exact unaided_go (t := t) (by rw [ht]; rfl)

/-- **`b.wg.Wait` is not stuck.**  While `shutdown` waits, either there is nothing left to wait for,
or a goroutine can go on and nobody outside of the bridge has to do anything for it. -/
theorem shutdown_progress (h : (system limit).Reachable w) (hm : w.shared.main = .wait) :
    (w.shared.wg = 0 ∧
        stepMain limit w.shared true = some { w.shared with main := .closeListener }) ∨
      ∃ l w', Unaided w l ∧ (system limit).step w l = some w' := by
  obtain ⟨⟨k, hk, hslots⟩, n, hn, hwg⟩ := counts h
  by_cases hnone : w.shared.wg = 0
  · exact Or.inl ⟨hnone, by simp [stepMain, hm, hnone]⟩
  · refine Or.inr ?_
    cases hst : w.shared.started with
    | cons c rest =>
        obtain ⟨t, ht⟩ := idle_thread h
        have hstep : next w.shared (w.thr t) (.start c) =
            some ({ w.shared with started := w.shared.started.erase c }, .handle c .idle) := by
          rw [ht t le_rfl]
          exact if_pos (by simp [hst])
        exact ⟨.thread t (.start c), _, trivial, interleave_step_thread.mpr ⟨_, _, hstep, rfl⟩⟩
    | nil =>
        rw [hm, hst] at hwg
        have hpos : 0 < n := Nat.pos_of_ne_zero fun hzero => hnone (by rw [hwg, hzero]; rfl)
        obtain ⟨t, hlive⟩ := hn.exists_of_pos hpos
        cases ht : w.thr t with
        | handle c n => exact unaided_handle h hm ht
        | fire c f => exact unaided_go (t := t) (by rw [ht]; rfl)
        | release =>
            have hslot : w.shared.slots ≠ 0 := by
              have := hk.pos (t := t) (by rw [ht]; rfl)
              omega
            exact unaided_go (t := t) (by rw [ht]; exact if_neg hslot)
        | done => exact unaided_go (t := t) (by rw [ht]; rfl)
        | idle | gone =>
            rw [ht] at hlive
            cases hlive

theorem shutdown_progress_signal :
    ∃ w, (system 1).exec (fun _ _ => True) start signalScript = some w ∧ w.shared.wg = 1 ∧
      ∃ l w', Unaided w l ∧ (system 1).step w l = some w' := by
  have hrun : ((system 1).exec (fun _ _ => True) start signalScript).map (fun w =>
      decide (w.shared.main = .wait ∧ w.shared.wg = 1)) = some true := by
    decide +kernel
  obtain ⟨w, hw, he⟩ := Option.map_eq_some_iff.mp hrun
  obtain ⟨hm, hwg⟩ := of_decide_eq_true he
  refine ⟨w, hw, hwg, (shutdown_progress (start_reachable.exec hw) hm).resolve_left ?_⟩
  exact fun hnone => Nat.one_ne_zero (hwg.symm.trans hnone.1)

end DahuaP2p.Life
