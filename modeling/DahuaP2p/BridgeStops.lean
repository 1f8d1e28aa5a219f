import DahuaP2p.BridgeRefinement

/-! # A dead tunnel stops the bridge

By `refines` what is proved in `Life`, `Serve` and `Tunnel` holds for the process.  The results here
need more than one of them.

* `dead_tunnel_stops`: `Close` of the tunnel, whoever has called it, runs the callback after it has
  closed the socket and let go of `t.mu`; the callback cancels the context, the context makes the
  listener be closed, and then `Accept` fails.  A `Close` that still waits with `t.mu` in its hand
  has not closed the socket, and about it nothing is said.
* `returned_left`: what there can be of the process when `run` has returned. -/

namespace DahuaP2p.Process

open Threads
open Life (MainPc)

variable {limit : ℕ} {cfg : Serve.Config} {s s' : Shared} {pc pc' : Pc} {w w' : World Shared Pc}
  {t : ℕ}

/-! ### What is missing -/

/-- What is missing for `Accept` to fail: the context has to be cancelled and the listener
closed. -/
def missing (s : Shared) : ℕ :=
  if s.bridge.listenerClosed then 0 else if s.bridge.ctxDone then 1 else 2

/-- The listener stays closed and the context done. -/
structure Keeps (s s' : Shared) : Prop where
  listener : s.bridge.listenerClosed = true → s'.bridge.listenerClosed = true
  done : s.bridge.ctxDone = true → s'.bridge.ctxDone = true

theorem Keeps.missing_le (h : Keeps s s') : missing s' ≤ missing s := by
  unfold missing
  split
  · exact Nat.zero_le _
  · next hopen' =>
      rw [if_neg fun hclosed => hopen' (h.listener hclosed)]
      split
      · split
        · exact Nat.le_refl 1
        · exact Nat.le_succ 1
      · next hno' => rw [if_neg fun hdone => hno' (h.done hdone)]

theorem stepped_keeps (s : Shared) (p : Tunnel.Pc) (tn : Tunnel.Shared) :
    Keeps s (s.stepped p tn) := by
  unfold Shared.stepped
  split
  · exact ⟨id, fun _ => rfl⟩
  · exact ⟨id, id⟩

theorem Acts.keeps (h : Acts limit s pc s' pc') : Keeps s s' := by
  cases h with
  | tunnel | closing | closed | inside | ret => exact stepped_keeps ..
  | main m ok b _ _ hb =>
      obtain ⟨hlistener, hdone⟩ := (Life.stepMain_acts hb).stop_mono
      exact ⟨hlistener, hdone⟩
  | call c n =>
      unfold beforeCall
      split <;> exact ⟨id, id⟩
  | control c n n' device ch g =>
      rcases Life.effect_cases c n { s.view with negotiation := g } with heq | heq | heq
      all_goals rw [heq]
      · exact ⟨id, id⟩
      · exact ⟨id, fun _ => rfl⟩
      · exact ⟨id, id⟩
  | start | setOnClose | close | untrack | silent | retire | giveUp | release | done =>
      exact ⟨id, id⟩

theorem stepEnv_keeps {e : Env} (h : stepEnv s e = some s') : Keeps s s' := by
  cases e with
  | watcher =>
      obtain ⟨_, h⟩ := Option.ite_none_right_eq_some.mp h
      cases h
      exact ⟨fun _ => rfl, id⟩
  | signal =>
      cases h
      exact ⟨id, fun _ => rfl⟩
  | tick d =>
      cases h
      exact ⟨id, id⟩

theorem step_missing_le {l : Label Choice Env} (h : (system cfg).step w l = some w') :
    missing w'.shared ≤ missing w.shared := by
  cases l with
  | thread t ch =>
      obtain ⟨s, pc, hn, rfl⟩ := interleave_step_thread.mp h
      exact (next_acts hn).keeps.missing_le
  | env e =>
      obtain ⟨s, he, rfl⟩ := interleave_step_env.mp h
      exact (stepEnv_keeps he).missing_le

/-! ### A dead tunnel -/

/-- A step of a goroutine that is about to run the callback, or of the one that waits for the
context. -/
def Stops (w : World Shared Pc) : Label Choice Env → Prop
  | .thread t (.tunnel .go) => callsBack (w.thr t).inside = true
  | .env .watcher => True
  | _ => False

/-- The callback never waits. -/
theorem callback_step (cfg : Serve.Config) (h : callsBack (w.thr t).inside = true) :
    ∃ w', (system cfg).step w (.thread t (.tunnel .go)) = some w' ∧
      w'.shared.bridge = { w.shared.bridge with ctxDone := true } := by
  have hnext : ∃ s pc, next (Serve.connectionLimit cfg) w.shared (w.thr t) (.tunnel .go) =
      some (s, pc) ∧ s.bridge = { w.shared.bridge with ctxDone := true } := by
    generalize w.thr t = pc at h
    have hcall : ∀ {p : Tunnel.Pc}, callsBack p = true → ∃ k, p = .close (.callback true) k := by
      intro p hp
      unfold callsBack at hp
      split at hp
      · exact ⟨_, rfl⟩
      · cases hp
    cases pc with
    | tunnel p | run m p | handle c n device p =>
        obtain ⟨k, rfl⟩ := hcall h
        exact ⟨_, _, rfl, rfl⟩
    | _ => cases h
  obtain ⟨s, pc, hn, hs⟩ := hnext
  exact ⟨_, interleave_step_thread.mpr ⟨s, pc, hn, rfl⟩, hs⟩

theorem callsBack_of_life (h : pc.life.fires = true) : callsBack pc.inside = true := by
  cases pc with
  | handle c n device p =>
      cases n with
      | realm q f =>
          cases q with
          | dial =>
              cases hnot : p.notifying with
              | false =>
                  rw [Pc.life, lifePc_dial hnot] at h
                  cases h
              | true =>
                  cases p with
                  | close q j =>
                      cases q with
                      | callback installed =>
                          cases installed with
                          | true => rfl
                          | false => cases h
                      | _ => cases hnot
                  | _ => cases hnot
          | _ => cases h
      | _ => cases h
  | _ => cases h

/-- After a `Close` has closed the socket, the context is done or some goroutine is about to run the
callback. -/
theorem exists_callback (h : (system cfg).Reachable w) (hm : w.thr 2 = .run .accept .idle)
    (hc : w.shared.tunnel.life.socketClosed = true) :
    w.shared.bridge.ctxDone = true ∨ ∃ t, callsBack (w.thr t).inside = true := by
  obtain ⟨n, hcount, hlife⟩ := (refines h).life
  have hmain : (lifeOf n w).shared.main = .accept := by
    simp only [lifeOf, lifeShared, hm, Pc.lifeMain]
  have hcancels := (Life.cancels hlife).of_main hc (by rw [hmain]; exact MainPc.noConfusion)
    (by rw [hmain]; rfl)
  rcases hcancels with hdone | hfiring | ⟨t, ht⟩
  · exact .inl hdone
  · obtain ⟨t, ht⟩ := hcount.exists_of_pos hfiring
    refine .inr ⟨t, ?_⟩
    cases hpc : w.thr t with
    | tunnel p =>
        rw [hpc] at ht
        exact ht
    | _ =>
        rw [hpc] at ht
        cases ht
  · exact .inr ⟨t, callsBack_of_life ht⟩

theorem stops_enabled (h : (system cfg).Reachable w) (hm : w.thr 2 = .run .accept .idle)
    (hd : w.shared.tunnel.life.socketClosed = true ∨ w.shared.bridge.ctxDone = true)
    (hmiss : missing w.shared ≠ 0) :
    ∃ l w', Stops w l ∧ (system cfg).step w l = some w' ∧ missing w'.shared < missing w.shared := by
  have hopen : w.shared.bridge.listenerClosed = false := by
    by_contra hcl
    exact hmiss (if_pos (Bool.of_not_eq_false hcl))
  by_cases hdone : w.shared.bridge.ctxDone = true
  · -- the goroutine of `serve` that waits for the context is there
    obtain ⟨n, _, hlife⟩ := (refines h).life
    have hstaged := Life.staged hlife
    have hlistening : w.shared.bridge.listening = true := by
      have hserving := hstaged.serving
      simp only [lifeOf, lifeShared, hm, Pc.lifeMain] at hserving
      exact hserving.resolve_left Bool.false_ne_true |>.resolve_left Bool.false_ne_true
    have hwatching : w.shared.bridge.watching = true :=
      (hstaged.watched hlistening).resolve_right fun hcl => by
        have hcl : w.shared.bridge.listenerClosed = true := hcl
        rw [hopen] at hcl
        cases hcl
    have hstep : stepEnv w.shared .watcher = some { w.shared with
        bridge.listenerClosed := true, bridge.watching := false } := by
      simp only [stepEnv, hwatching, hdone, Bool.and_self, if_true]
    refine ⟨.env .watcher, _, trivial, interleave_step_env.mpr ⟨_, hstep, rfl⟩, ?_⟩
    simp [missing, hopen, hdone]
  · obtain ⟨t, ht⟩ := (exists_callback h hm (hd.resolve_right hdone)).resolve_left hdone
    obtain ⟨w', hw', hbridge⟩ := callback_step cfg ht
    refine ⟨.thread t (.tunnel .go), w', ht, hw', ?_⟩
    simp [missing, hbridge, hopen, hdone]

/-- **A dead tunnel stops the bridge.**  While `run` accepts connections and a `Close` has closed
the socket of the tunnel, or the context is done, a goroutine that makes `Accept` fail is ready to
run, until the listener is closed: then there is no more than the failure of `Accept`.  It takes at
most two such steps, and no step of anybody takes them back. -/
theorem dead_tunnel_stops (h : (system cfg).Reachable w) (hm : w.thr 2 = .run .accept .idle)
    (hd : w.shared.tunnel.life.socketClosed = true ∨ w.shared.bridge.ctxDone = true) :
    missing w.shared ≤ 2 ∧
      (missing w.shared = 0 → ∀ ch s pc,
        next (Serve.connectionLimit cfg) w.shared (w.thr 2) ch = some (s, pc) →
          pc = .run .closeClient .idle) ∧
      (missing w.shared ≠ 0 → ∃ l w', Stops w l ∧ (system cfg).step w l = some w' ∧
        missing w'.shared < missing w.shared) ∧
      ∀ l w', (system cfg).step w l = some w' → missing w'.shared ≤ missing w.shared := by
  refine ⟨?_, fun hnone ch s pc hn => ?_, stops_enabled h hm hd, fun l w' hs => step_missing_le hs⟩
  · unfold missing
    split
    · exact Nat.zero_le 2
    · split
      · exact Nat.le_succ 1
      · exact Nat.le_refl 2
  · have hclosed : w.shared.bridge.listenerClosed = true := by
      by_contra hopen
      rw [missing, if_neg hopen] at hnone
      split at hnone <;> cases hnone
    rw [hm] at hn
    cases next_acts hn with
    | main _ ok b _ _ hb =>
        cases Life.stepMain_acts hb with
        | accept hopen =>
            have hopen : w.shared.bridge.listenerClosed = false := hopen
            rw [hclosed] at hopen
            cases hopen
        | acceptFail => rfl
    | close _ hcloses => cases hcloses
    | closing _ _ _ _ _ hidle => exact absurd rfl hidle
    | closed _ _ _ _ hidle => exact absurd rfl hidle

/-- `run` listens, and the reader gives up after ten errors and closes the tunnel. -/
def readErrorsScript : List (Label Choice Env) :=
  let error : List Tunnel.Choice := [.go, .recv .error, .go]
  [.thread 2 (.main true), .thread 2 (.main true)] ++
    ((List.replicate Tunnel.maxConsecutiveReadErrors error).flatten ++ Tunnel.gos 6).map
      fun ch => .thread 0 (.tunnel ch)

/-- The reader has still to run the callback. -/
theorem dead_tunnel_stops_read_errors :
    ∃ cfg w, (system cfg).exec (fun _ _ => True) (start 1 Ptcp.newSession) readErrorsScript =
        some w ∧ w.thr 2 = .run .accept .idle ∧ missing w.shared = 2 ∧
      ∃ l w', Stops w l ∧ (system cfg).step w l = some w' ∧
        missing w'.shared < missing w.shared := by
  let cfg : Serve.Config := ⟨2, 3, by decide, by decide⟩
  have hrun : ((system cfg).exec (fun _ _ => True) (start 1 Ptcp.newSession)
      readErrorsScript).map (fun w => decide (w.thr 2 = .run .accept .idle ∧
        w.shared.tunnel.life.socketClosed = true ∧ missing w.shared = 2)) = some true := by
    decide +kernel
  obtain ⟨w, hw, he⟩ := Option.map_eq_some_iff.mp hrun
  obtain ⟨hm, hclosed, hmissing⟩ := of_decide_eq_true he
  have hstart : (system cfg).Reachable (start 1 Ptcp.newSession) :=
    .init ⟨1, Ptcp.newSession, by decide, rfl⟩
  obtain ⟨_, _, hstops, _⟩ := dead_tunnel_stops (System.Reach.exec hstart hw) hm (.inl hclosed)
  exact ⟨cfg, w, hw, hm, hmissing, hstops (by omega)⟩

/-! ### After `run` -/

/-- When `run` has returned the socket of the tunnel is closed and `t.mu` free, and besides `run`
there are only the goroutines of the tunnel and of `copyBoth`. -/
theorem returned_left (h : (system cfg).Reachable w) (hm : w.thr 2 = .run .returned .idle) :
    w.shared.tunnel.life.socketClosed = true ∧ w.shared.tunnel.locks.mu = false ∧
      ∀ t, t ≠ 2 → w.thr t = .gone ∨ ∃ p, w.thr t = .tunnel p := by
  obtain ⟨hserve, n, _, hlife⟩ := refines h
  have hmain : (lifeOf n w).shared.main = .returned := by
    simp only [lifeOf, lifeShared, hm, Pc.lifeMain]
  have hclosed : w.shared.tunnel.view.closed = true :=
    ((Life.staged hlife).ends (by rw [hmain]; rfl)).1 rfl
  refine ⟨hclosed, ?_, fun t ht => ?_⟩
  · rcases (guarded_of_serve hserve).1 with ⟨_, _, hopen⟩ | ⟨hfree, _⟩
    · rw [hclosed] at hopen
      cases hopen
    · exact hfree
  · have hlive : (w.thr t).life.live = false := (Life.waited_gone hlife (by rw [hmain]; rfl)).1 t
    have hrun := mt (isRun_iff h t).mp ht
    cases hpc : w.thr t with
    | tunnel p => exact .inr ⟨p, rfl⟩
    | gone => exact .inl rfl
    | run m p =>
        rw [hpc] at hrun
        exact absurd rfl hrun
    | handle c n device p =>
        rw [hpc, Pc.life, lifePc_live] at hlive
        cases hlive
    | dialTimeout | release | done =>
        rw [hpc] at hlive
        cases hlive

end DahuaP2p.Process
