import DahuaP2p.ManagerIdle
import DahuaP2p.ManagerForget

/-! # No session is kept for ever

A session stays in its list while it has references.  What takes it off the list afterwards is its
idle timer, or the callback of its tunnel if the tunnel dies.  `Acquire`, `Release`, `forget` and
`CloseAll` stop timers, and a timer that has fired waits for `m.mu` while they run.

* `Watched` : an open session without references has a timer that is armed, or whose callback is on
  its way.
* `no_session_forgotten`: every session in a list has references, or such a timer, whose callback
  takes it off the list and closes it as soon as it gets the lock, or a closed tunnel whose callback
  is going to forget it. -/

namespace DahuaP2p.Manager

open Threads

variable {s s' : Shared} {pc pc' : Pc} {w : World Shared Pc} {t : ℕ} {c d : ClientId} {n : TimerId}
  {key : SessionKey} {ok : World Shared Pc → Label Choice Empty → Prop}

/-! ### Timers -/

/-- A timer that exists keeps its key. -/
theorem Acts.timer_key (h : Acts s pc s' pc') (hn : n < s.timers.count) :
    s'.timers.key n = s.timers.key n := by
  cases h with
  | releaseIdle key c m => exact Function.update_of_ne hn.ne _ _
  | _ => rfl

/-- The ways in which an armed timer is no longer armed: it has fired, or it was that of a session
which has a closed tunnel, is forgotten or has another timer now, or all sessions are gone. -/
theorem Acts.armed_leaves (h : Acts s pc s' pc') (hn : n ∈ s.timers.armed)
    (hlt : n < s.timers.count) :
    n ∈ s'.timers.armed ∨ pc' = .timer n ∨ s'.sessions = ∅ ∨
      ∃ d, (s.managed d).idleTimer = some n ∧
        ((s.tunnels d).closed = true ∨ s' = s.forget d ∨ (s'.managed d).idleTimer ≠ some n) := by
  have hstop : ∀ d, n ∈ (s.timers.stop (s.managed d).idleTimer).armed ∨
      (s.managed d).idleTimer = some n := by
    intro d
    by_cases hd : (s.managed d).idleTimer = some n
    · exact .inr hd
    · exact .inl (Timers.mem_stop.mpr ⟨hn, hd⟩)
  cases h with
  | callTimer m hm =>
      by_cases hmn : n = m
      · exact .inr (.inl (by rw [hmn]))
      · exact .inl (Finset.mem_erase.mpr ⟨hmn, hn⟩)
  | pruneClosed cfg d todo live hclosed =>
      exact (hstop d).imp_right fun hd => .inr (.inr ⟨d, hd, .inl hclosed⟩)
  | forgetLate cfg inf d | forget d =>
      exact (hstop d).imp_right fun hd => .inr (.inr ⟨d, hd, .inr (.inl rfl)⟩)
  | reserve cfg d | releaseRetired key d =>
      refine (hstop d).imp_right fun hd => .inr (.inr ⟨d, hd, .inr (.inr ?_)⟩)
      simp [Shared.reserve, Shared.releaseRetired, Shared.remove, Shared.setManaged]
  | releaseIdle key d m =>
      rcases hstop d with hkept | hd
      · exact .inl (Finset.mem_insert_of_mem hkept)
      · refine .inr (.inr (.inr ⟨d, hd, .inr (.inr ?_)⟩))
        simpa [Shared.releaseIdle, Shared.setManaged] using hlt.ne'
  | closeAll ks => exact .inr (.inr (.inl rfl))
  | _ => exact .inl hn

/-! ### The invariant -/

/-- The timer of the session is armed, or its callback is on its way. -/
def Expiring (w : World Shared Pc) (key : SessionKey) (c : ClientId) : Prop :=
  ∃ n, (w.shared.managed c).idleTimer = some n ∧ w.shared.timers.key n = key ∧
    (n ∈ w.shared.timers.armed ∨ ∃ t, w.thr t = .timer n)

structure Watched (w : World Shared Pc) : Prop where
  owner : ∀ c n, (w.shared.managed c).idleTimer = some n →
    n < w.shared.timers.count ∧ w.shared.timers.owner n = c
  idle : ∀ key, ∀ c ∈ w.shared.sessions.get key, (w.shared.managed c).refCount ≤ 0 →
    (w.shared.tunnels c).closed = true ∨ Expiring w key c

section step
variable (ha : Acts w.shared (w.thr t) s pc) (hi : Watched w)
include ha hi

theorem Watched.owner_step (hn : (s.managed c).idleTimer = some n) :
    n < s.timers.count ∧ s.timers.owner n = c := by
  have hkeep : (w.shared.managed c).idleTimer = some n →
      n < s.timers.count ∧ s.timers.owner n = c := by
    intro hold
    obtain ⟨hlt, howner⟩ := hi.owner c n hold
    exact ⟨hlt.trans_le ha.timer_count, by rw [(ha.timer_owner hlt).1, howner]⟩
  have hact := ha.timerAct c
  generalize w.thr t = p at hact
  cases hact with
  | keep e =>
      rw [e] at hn
      exact hkeep hn
  | shared key m =>
      simp only [Shared.releaseShared, Shared.setManaged, Function.update_self] at hn
      exact hkeep hn
  | reserve | commit | retired =>
      simp [Shared.reserve, Shared.commit, Shared.releaseRetired, Shared.remove,
        Shared.setManaged] at hn
  | idle key m =>
      obtain rfl : w.shared.timers.count = n := by
        simpa [Shared.releaseIdle, Shared.setManaged] using hn
      exact ⟨Nat.lt_succ_self _, Function.update_self ..⟩

/-- The timer of an idle session stays, or fires. -/
theorem Watched.armed_step (hl : Listing w) (hc : c ∈ s.sessions.get key)
    (hlt : c < w.shared.clients) (hn : n ∈ w.shared.timers.armed)
    (hold : (w.shared.managed c).idleTimer = some n) (hnew : (s.managed c).idleTimer = some n) :
    (s.tunnels c).closed = true ∨ n ∈ s.timers.armed ∨ pc = .timer n := by
  obtain ⟨hcount, howner⟩ := hi.owner c n hold
  rcases ha.armed_leaves hn hcount with hkept | hfired | hempty | ⟨d, hd, hwhy⟩
  · exact .inr (.inl hkept)
  · exact .inr (.inr hfired)
  · rw [hempty] at hc
    cases hc
  · obtain rfl : c = d := howner.symm.trans (hi.owner d n hd).2
    rcases hwhy with hclosed | rfl | hother
    · exact .inl (ha.closed_mono hlt hclosed)
    · rw [hl.get_forget] at hc
      exact absurd hc (hl.nodup key).not_mem_erase
    · exact absurd hnew hother

/-- The callback of an idle session that is still listed has not had the lock. -/
theorem Watched.callback_step (hl : Listing w) (hc : c ∈ s.sessions.get key)
    (hcount : (w.shared.managed c).refCount ≤ 0) (hold : c ∈ w.shared.sessions.get key)
    (hn : (w.shared.managed c).idleTimer = some n) (hkey : w.shared.timers.key n = key) :
    w.thr t ≠ .timer n := by
  intro ht
  have howner := (hi.owner c n hn).2
  rw [ht] at ha
  cases ha with
  | timerSkip _ _ hwhy =>
      rw [howner, hkey] at hwhy
      exact hwhy.elim (fun hnot => hnot hold) fun hpos => by omega
  | timerRemove _ _ hmem =>
      rw [howner] at hc hmem
      exact hl.unlisted_of_remove hmem rfl key hc

/-- An action that leaves the session alone. -/
theorem Watched.kept_step (hl : Listing w) (hc : c ∈ s.sessions.get key)
    (hold : c ∈ w.shared.sessions.get key) (he : s.managed c = w.shared.managed c)
    (hcount : (w.shared.managed c).refCount ≤ 0) :
    (s.tunnels c).closed = true ∨ Expiring ⟨s, Function.update w.thr t pc⟩ key c := by
  have hlt := hl.lt_clients hold
  rcases hi.idle key c hold hcount with hclosed | ⟨n, htimer, hkey, hwatch⟩
  · exact .inl (ha.closed_mono hlt hclosed)
  · have htimer' : (s.managed c).idleTimer = some n := by rw [he, htimer]
    have hkey' : s.timers.key n = key := by rw [ha.timer_key (hi.owner c n htimer).1, hkey]
    rcases hwatch with harmed | ⟨u, hu⟩
    · refine (hi.armed_step ha hl hc hlt harmed htimer htimer').imp_right fun hwhy =>
        ⟨n, htimer', hkey', hwhy.imp_right fun hpc => ⟨t, ?_⟩⟩
      exact (Function.update_self ..).trans hpc
    · have hut : u ≠ t := by
        rintro rfl
        exact hi.callback_step ha hl hc hcount hold htimer hkey hu
      exact .inr ⟨n, htimer', hkey', .inr ⟨u, (Function.update_of_ne hut ..).trans hu⟩⟩

theorem Watched.idle_step (hr : system.Reach ok w) (hc : c ∈ s.sessions.get key)
    (hcount : (s.managed c).refCount ≤ 0) :
    (s.tunnels c).closed = true ∨ Expiring ⟨s, Function.update w.thr t pc⟩ key c := by
  have hl := listing hr
  have hact := ha.timerAct c
  rcases ha.listAct.mem (hl.knows t) hc with hold | ⟨cfg, inf, _, rfl, _⟩
  · have hnonneg := refCount_nonneg hr key c hold
    have hfresh := @Listing.unlisted_of_fresh w key c t hl
    generalize hp : w.thr t = p at hact hfresh
    cases hact with
    | keep e => exact hi.kept_step ha hl hc hold e (e ▸ hcount)
    | commit cfg inf => exact absurd hold (hfresh rfl)
    | reserve | shared key' m _ hmany =>
        simp only [Shared.reserve, Shared.releaseShared, Shared.setManaged,
          Function.update_self] at hcount
        omega
    | retired key' m hmem => exact absurd hc (hl.unlisted_of_remove hmem rfl key)
    | idle key' m hmem =>
        obtain rfl := hl.one_list hold hmem
        refine .inr ⟨w.shared.timers.count, ?_, Function.update_self .., .inl ?_⟩
        · change ((w.shared.releaseIdle key' c m).managed c).idleTimer = _
          simp [Shared.releaseIdle, Shared.setManaged]
        · exact Finset.mem_insert_self _ _
  · simp [Shared.commit, Shared.setManaged] at hcount

end step

theorem watched (h : system.Reach ok w) : Watched w := by
  refine system_invariant (I := Watched) ?_ ?_ h
  · refine ⟨fun c n hn => ?_, fun key c hc => ?_⟩
    · cases hn
    · cases hc
  · intro w t ch s pc hr hi _ _ ha
    exact ⟨fun c n => hi.owner_step ha, fun key c => hi.idle_step ha hr⟩

/-! ### Sessions -/

/-- **No session is kept for ever.**  A session in a list has references, or a timer that is armed
or whose callback is on its way and takes the session off the list and closes it once it gets the
lock, or a closed tunnel and a goroutine that is going to forget it. -/
theorem no_session_forgotten (h : system.Reachable w) (hc : c ∈ w.shared.sessions.get key) :
    0 < (w.shared.managed c).refCount ∨
    (∃ n, (n ∈ w.shared.timers.armed ∨ ∃ t, w.thr t = .timer n) ∧
      (w.shared.mu = false → ∃ s, next w.shared (.timer n) .go = some (s, .close c (.timer n)) ∧
        ∀ key', c ∉ s.sessions.get key')) ∨
    ((w.shared.tunnels c).closed = true ∧ ∃ t, (w.thr t).hook = some c) := by
  have hl := listing h
  have hi := watched h
  by_cases hcount : (w.shared.managed c).refCount ≤ 0
  · refine .inr ?_
    rcases hi.idle key c hc hcount with hclosed | ⟨n, htimer, hkey, hwatch⟩
    · refine .inr ⟨hclosed, ?_⟩
      obtain ⟨runs, hruns⟩ : ∃ runs, forgetSystem.Reachable (w, runs) := h.exists_log
      have hh : Hooks w runs := @hooks (fun _ _ => True) w runs hruns
      rcases hh.of_closed (hl.made key c hc) hclosed with ⟨hone, _⟩ | ⟨_, t, ht, _⟩
      · exact absurd hc (hh.unlisted c key (by omega))
      · exact ⟨t, ht⟩
    · refine .inl ⟨n, hwatch, fun hmu => ?_⟩
      have howner := (hi.owner c n htimer).2
      have hnext : next w.shared (.timer n) .go =
          some ((w.shared.callback n).remove key c, .close c (.timer n)) := by
        simp only [next, stepTimer, howner, hkey, hmu]
        rw [if_neg (by decide), if_pos ⟨hc, by omega⟩]
      exact ⟨_, hnext, hl.unlisted_of_remove hc rfl⟩
  · exact .inl (by omega)

/-- A session that was acquired and released once. -/
theorem no_session_forgotten_firstRelease :
    ∃ w, system.exec (fun _ _ => True) start firstRelease = some w ∧
      0 ∈ w.shared.sessions.get (sessionKeyFor singleRealm) ∧
      ∃ n, (n ∈ w.shared.timers.armed ∨ ∃ t, w.thr t = .timer n) ∧
        (w.shared.mu = false → ∃ s, next w.shared (.timer n) .go = some (s, .close 0 (.timer n)) ∧
          ∀ key, 0 ∉ s.sessions.get key) := by
  have hrun : (system.exec (fun _ _ => True) start firstRelease).map (fun w =>
      decide (0 ∈ w.shared.sessions.get (sessionKeyFor singleRealm) ∧
        (w.shared.managed 0).refCount = 0 ∧ (w.shared.tunnels 0).closed = false)) = some true := by
    decide +kernel
  obtain ⟨w, hw, he⟩ := Option.map_eq_some_iff.mp hrun
  obtain ⟨hc, hcount, hopen⟩ := of_decide_eq_true he
  refine ⟨w, hw, hc, ?_⟩
  rcases no_session_forgotten (reach_of_exec hw) hc with hpos | hexpiring | ⟨hclosed, _⟩
  · omega
  · exact hexpiring
  · rw [hopen] at hclosed
    cases hclosed

end DahuaP2p.Manager
