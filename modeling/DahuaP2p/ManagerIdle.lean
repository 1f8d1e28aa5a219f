import DahuaP2p.ManagerCounts

/-! # Idle timers

The idle timer of a session is to close its tunnel some time after the last `Release`.  The
callback checks only that the session has no references.  A callback that has fired and waits for
`m.mu` while the session is acquired and released once more therefore closes the tunnel although a
new timer has been armed (`idle_timer_outdated`).

This is the only way it can go wrong: in every run in which no `Release` arms a timer while an
earlier callback of the session waits for the lock (`Undisturbed`), a callback that closes a tunnel
is the one of the session's current timer, and there was no acquisition since it was armed
(`idle_timer_current`). -/

namespace DahuaP2p.Manager

open Threads

variable {s s' : Shared} {pc pc' : Pc} {w : World Shared Pc} {t : ℕ} {c : ClientId} {n : TimerId}

/-! ### What an action does to a session and its timer -/

/-- How an action changes the reference count, the timer and the acquisitions of a session. -/
inductive TimerAct (s : Shared) (c : ClientId) : Pc → Shared → Prop
  | keep {pc : Pc} {s' : Shared} : s'.managed c = s.managed c →
      s'.hist.acquired c = s.hist.acquired c → TimerAct s c pc s'
  | reserve (cfg : Config) (todo : List ClientId) :
      TimerAct s c (.acquire cfg (.select (c :: todo))) (s.reserve cfg c)
  | commit (cfg : Config) (inf : InflightId) :
      TimerAct s c (.acquire cfg (.commit inf (some c))) (s.commit cfg inf c)
  | shared (key : SessionKey) (n : Option Ticket) : c ∈ s.sessions.get key →
      1 < (s.managed c).refCount →
      TimerAct s c (.release key.serial c n) (s.releaseShared c n)
  | retired (key : SessionKey) (n : Option Ticket) : c ∈ s.sessions.get key →
      TimerAct s c (.release key.serial c n) (s.releaseRetired key c n)
  | idle (key : SessionKey) (n : Option Ticket) : c ∈ s.sessions.get key →
      (s.managed c).refCount ≤ 1 → (s.tunnels c).isRetired = false →
      TimerAct s c (.release key.serial c n) (s.releaseIdle key c n)

theorem Acts.timerAct (h : Acts s pc s' pc') (c : ClientId) : TimerAct s c pc s' := by
  cases h with
  | reserve cfg d todo =>
      by_cases hc : c = d
      · subst hc
        exact .reserve cfg todo
      · exact .keep (Function.update_of_ne hc _ _) (Function.update_of_ne hc _ _)
  | commit cfg inf d =>
      by_cases hc : c = d
      · subst hc
        exact .commit cfg inf
      · exact .keep (Function.update_of_ne hc _ _) (Function.update_of_ne hc _ _)
  | releaseShared key d n _ hmem hcount =>
      by_cases hc : c = d
      · subst hc
        exact .shared key n hmem hcount
      · exact .keep (Function.update_of_ne hc _ _) rfl
  | releaseRetired key d n _ hmem =>
      by_cases hc : c = d
      · subst hc
        exact .retired key n hmem
      · exact .keep (Function.update_of_ne hc _ _) rfl
  | releaseIdle key d n _ hmem hcount hretired =>
      by_cases hc : c = d
      · subst hc
        exact .idle key n hmem hcount hretired
      · exact .keep (Function.update_of_ne hc _ _) rfl
  | callRelease serial d n => exact .keep rfl (by rw [s.hist.giveUp_acquired n])
  | _ => exact .keep rfl rfl

/-! ### What an action does to the timers -/

theorem Timers.mem_stop {ts : Timers} {o : Option TimerId} :
    n ∈ (ts.stop o).armed ↔ n ∈ ts.armed ∧ o ≠ some n := by simp [Timers.stop]

/-- A timer that exists keeps its session and the count of acquisitions at its arming. -/
theorem Acts.timer_owner (h : Acts s pc s' pc') (hn : n < s.timers.count) :
    s'.timers.owner n = s.timers.owner n ∧ s'.hist.armedAt n = s.hist.armedAt n := by
  have hne : n ≠ s.timers.count := Nat.ne_of_lt hn
  cases h with
  | releaseIdle key c m => exact ⟨Function.update_of_ne hne _ _, Function.update_of_ne hne _ _⟩
  | callRelease serial c m => exact ⟨rfl, by cases m <;> rfl⟩
  | _ => exact ⟨rfl, rfl⟩

theorem Acts.timer_count (h : Acts s pc s' pc') : s.timers.count ≤ s'.timers.count := by
  cases h with
  | releaseIdle => exact Nat.le_succ _
  | _ => exact le_rfl

/-- An armed timer was armed before, or is armed by the last `Release` of a session. -/
theorem Acts.timer_armed (h : Acts s pc s' pc') (hn : n ∈ s'.timers.armed) :
    n ∈ s.timers.armed ∨ n = s.timers.count ∧
      ∃ key c m, c ∈ s.sessions.get key ∧ s' = s.releaseIdle key c m := by
  cases h with
  | callTimer m => exact .inl (Finset.mem_of_mem_erase hn)
  | pruneClosed cfg c | reserve cfg c | forgetLate cfg inf c | releaseRetired key c | forget c =>
      exact .inl (Timers.mem_stop.mp hn).1
  | releaseIdle key c m _ hmem =>
      rcases Finset.mem_insert.mp hn with hnew | hold
      · exact .inr ⟨hnew, key, c, m, hmem, rfl⟩
      · exact .inl (Timers.mem_stop.mp hold).1
  | closeAll ks => exact .inl (Finset.mem_filter.mp hn).1
  | _ => exact .inl hn

/-- A callback that waits for the lock waited before, or its timer fires now. -/
theorem Acts.timer_waiting (h : Acts s pc s' pc') (hn : n ∈ s'.timers.waiting) :
    n ∈ s.timers.waiting ∨
      n ∈ s.timers.armed ∧ s' = { s with timers := s.timers.fire n } := by
  cases h with
  | callTimer m hm =>
      rcases Finset.mem_insert.mp hn with rfl | hold
      · exact .inr ⟨hm, rfl⟩
      · exact .inl hold
  | timerSkip m | timerRemove m => exact .inl (Finset.mem_of_mem_erase hn)
  | _ => exact .inl hn

/-! ### Undisturbed runs -/

/-- No `Release` that leaves an open session without references gets the lock while the callback of
an earlier timer of the session waits for it. -/
def Undisturbed (w : World Shared Pc) : Label Choice Empty → Prop
  | .thread t (.key _) =>
      match w.thr t with
      | .release _ c _ =>
          (w.shared.managed c).refCount ≤ 1 → (w.shared.tunnels c).isRetired = false →
            ∀ n ∈ w.shared.timers.waiting, w.shared.timers.owner n ≠ c
      | _ => True
  | _ => True

instance (w : World Shared Pc) (l : Label Choice Empty) : Decidable (Undisturbed w l) := by
  rcases l with ⟨t, _ | _⟩ | e
  all_goals try exact .isTrue trivial
  unfold Undisturbed
  dsimp only
  split <;> infer_instance

theorem Undisturbed.idle {ch : Choice} {serial : String} {m : Option Ticket} {key : SessionKey}
    (hok : Undisturbed w (.thread t ch)) (hpc : w.thr t = .release serial c m)
    (hnext : next w.shared (w.thr t) ch = some (w.shared.releaseIdle key c m, pc))
    (hcount : (w.shared.managed c).refCount ≤ 1)
    (hretired : (w.shared.tunnels c).isRetired = false) :
    ∀ n ∈ w.shared.timers.waiting, w.shared.timers.owner n ≠ c := by
  rw [hpc] at hnext
  cases ch with
  | key k =>
      simp only [Undisturbed, hpc] at hok
      exact hok hcount hretired
  | go =>
      obtain ⟨_, he⟩ := Option.ite_none_right_eq_some.mp hnext
      -- a `Release` that finds nothing arms no timer
      have hts := congrArg (fun r => r.1.timers.count) (Option.some.inj he)
      exact absurd hts (Nat.ne_of_lt (Nat.lt_succ_self _))
  | _ => cases hnext

/-! ### References are never negative -/

section nonneg
variable {ok : World Shared Pc → Label Choice Empty → Prop}

theorem refCount_nonneg (h : system.Reach ok w) :
    ∀ key, ∀ c ∈ w.shared.sessions.get key, 0 ≤ (w.shared.managed c).refCount := by
  refine system_invariant (I := fun w => ∀ key, ∀ c ∈ w.shared.sessions.get key,
    0 ≤ (w.shared.managed c).refCount) ?_ ?_ h
  · intro key c hc
    cases hc
  · intro w t ch s pc hr hi _ _ ha key c hc
    have hl := listing hr
    have hact := ha.timerAct c
    rcases ha.listAct.mem (hl.knows t) hc with hold | ⟨cfg, inf, _, rfl, _⟩
    · have hnonneg := hi key c hold
      generalize w.thr t = p at hact
      cases hact with
      | keep e =>
          rw [e]
          exact hnonneg
      | reserve | commit | shared | retired | idle =>
          simp only [Shared.reserve, Shared.commit, Shared.releaseShared, Shared.releaseRetired,
            Shared.releaseIdle, Shared.remove, Shared.setManaged, Function.update_self]
          omega
    · simp [Shared.commit, Shared.setManaged]

end nonneg

/-! ### The invariant -/

/-- The timer is the current one of its session, which was not acquired since. -/
def Current (s : Shared) (n : TimerId) : Prop :=
  (s.managed (s.timers.owner n)).idleTimer = some n ∧
    s.hist.acquired (s.timers.owner n) = s.hist.armedAt n

/-- The state of the idle timers. -/
structure Timed (s : Shared) : Prop where
  armed_lt : ∀ n ∈ s.timers.armed, n < s.timers.count
  waiting_lt : ∀ n ∈ s.timers.waiting, n < s.timers.count
  disjoint : ∀ n ∈ s.timers.armed, n ∉ s.timers.waiting
  made : ∀ n < s.timers.count, 0 < s.hist.acquired (s.timers.owner n)
  armed : ∀ n ∈ s.timers.armed, ∀ key, s.timers.owner n ∈ s.sessions.get key → Current s n
  waiting : ∀ n ∈ s.timers.waiting, ∀ key, s.timers.owner n ∈ s.sessions.get key →
    0 < (s.managed (s.timers.owner n)).refCount ∨ Current s n

section step
variable {ch : Choice}

theorem Acts.timed_armed (ha : Acts w.shared (w.thr t) s pc) (hl : Listing w)
    (hi : Timed w.shared) (hn : n ∈ s.timers.armed) {key : SessionKey}
    (hc : s.timers.owner n ∈ s.sessions.get key) : Current s n := by
  rcases ha.timer_armed hn with hold | ⟨rfl, key', c, m, _, rfl⟩
  · obtain ⟨howner, hat⟩ := ha.timer_owner (hi.armed_lt n hold)
    unfold Current
    rw [howner] at hc ⊢
    rw [hat]
    have hmade := hi.made n (hi.armed_lt n hold)
    obtain ⟨htimer, hacquired⟩ := hi.armed n hold key (ha.listed_before hl hmade hc)
    have hact := ha.timerAct (w.shared.timers.owner n)
    have hfresh := hl.fresh t
    have hne : n ≠ w.shared.timers.count := Nat.ne_of_lt (hi.armed_lt n hold)
    generalize w.thr t = p at hact hfresh
    generalize w.shared.timers.owner n = c at *
    cases hact with
    | keep e e' =>
        rw [e, e']
        exact ⟨htimer, hacquired⟩
    | reserve => exact absurd htimer (Timers.mem_stop.mp hn).2
    | commit cfg inf =>
        have := (hfresh c rfl).2
        omega
    | shared key' m =>
        simp only [Shared.releaseShared, Shared.setManaged, Function.update_self]
        exact ⟨htimer, hacquired⟩
    | retired key' m hmem => exact absurd hc (hl.unlisted_of_remove hmem rfl key)
    | idle key' m =>
        rcases Finset.mem_insert.mp hn with hnew | hstop
        · exact absurd hnew hne
        · exact absurd htimer (Timers.mem_stop.mp hstop).2
  · simp [Current, Shared.releaseIdle, Shared.setManaged, Timers.arm, Timers.stop, History.release]

theorem Acts.timed_waiting (ha : Acts w.shared (w.thr t) s pc) (hr : system.Reach Undisturbed w)
    (hok : Undisturbed w (.thread t ch)) (hnext : next w.shared (w.thr t) ch = some (s, pc))
    (hi : Timed w.shared) (hn : n ∈ s.timers.waiting) {key : SessionKey}
    (hc : s.timers.owner n ∈ s.sessions.get key) :
    0 < (s.managed (s.timers.owner n)).refCount ∨ Current s n := by
  have hl := listing hr
  rcases ha.timer_waiting hn with hold | ⟨hfired, rfl⟩
  · obtain ⟨howner, hat⟩ := ha.timer_owner (hi.waiting_lt n hold)
    unfold Current
    rw [howner] at hc ⊢
    rw [hat]
    have hmade := hi.made n (hi.waiting_lt n hold)
    have hlisted := ha.listed_before hl hmade hc
    have hnonneg := refCount_nonneg hr key _ hlisted
    have hbefore := hi.waiting n hold key hlisted
    have hact := ha.timerAct (w.shared.timers.owner n)
    have hfresh := hl.fresh t
    unfold Current at hbefore
    generalize hp : w.thr t = p at hact hfresh
    generalize hd : w.shared.timers.owner n = c at *
    cases hact with
    | keep e e' =>
        rw [e, e']
        exact hbefore
    | reserve =>
        refine .inl ?_
        simp only [Shared.reserve, Shared.setManaged, Function.update_self]
        omega
    | commit cfg inf =>
        have := (hfresh c rfl).2
        omega
    | shared key' m _ hcount =>
        refine .inl ?_
        simp only [Shared.releaseShared, Shared.setManaged, Function.update_self]
        omega
    | retired key' m hmem => exact absurd hc (hl.unlisted_of_remove hmem rfl key)
    | idle key' m _ hcount hretired => exact absurd hd (hok.idle hp hnext hcount hretired n hold)
  · exact .inr (hi.armed n hfired key hc)

theorem Acts.timed_made (ha : Acts w.shared (w.thr t) s pc) (hl : Listing w)
    (hi : Timed w.shared) (hn : n < s.timers.count) : 0 < s.hist.acquired (s.timers.owner n) := by
  by_cases hold : n < w.shared.timers.count
  · rw [(ha.timer_owner hold).1]
    exact lt_of_lt_of_le (hi.made n hold) (ha.acquired_le _)
  · generalize w.thr t = p at ha
    cases ha with
    | releaseIdle key c m _ hmem =>
        have hnew : n = w.shared.timers.count :=
          le_antisymm (Nat.lt_succ_iff.mp hn) (not_lt.mp hold)
        rw [hnew]
        simp only [Shared.releaseIdle, Timers.arm, Timers.stop, Function.update_self]
        exact hl.made key c hmem
    | _ => exact absurd hn hold

end step

theorem timed (h : system.Reach Undisturbed w) : Timed w.shared := by
  refine system_invariant (I := fun w => Timed w.shared) ?_ ?_ h
  · refine ⟨fun n hn => ?_, fun n hn => ?_, fun n hn => ?_, fun n hn => ?_, fun n hn => ?_,
      fun n hn => ?_⟩
    · exact absurd hn (Finset.notMem_empty n)
    · exact absurd hn (Finset.notMem_empty n)
    · exact absurd hn (Finset.notMem_empty n)
    · exact absurd hn (Nat.not_lt_zero n)
    · exact absurd hn (Finset.notMem_empty n)
    · exact absurd hn (Finset.notMem_empty n)
  · intro w t ch s pc hr hi hok hnext ha
    have hl := listing hr
    have hle := ha.timer_count
    refine ⟨fun n hn => ?_, fun n hn => ?_, fun n hn hw => ?_, fun n => ha.timed_made hl hi,
      fun n hn key => ha.timed_armed hl hi hn, fun n hn key => ha.timed_waiting hr hok hnext hi hn⟩
    · rcases ha.timer_armed hn with hold | ⟨rfl, key, c, m, _, rfl⟩
      · exact lt_of_lt_of_le (hi.armed_lt n hold) hle
      · exact Nat.lt_succ_self _
    · rcases ha.timer_waiting hn with hold | ⟨hfired, _⟩
      · exact lt_of_lt_of_le (hi.waiting_lt n hold) hle
      · exact lt_of_lt_of_le (hi.armed_lt n hfired) hle
    · rcases ha.timer_waiting hw with hold | ⟨_, rfl⟩
      · rcases ha.timer_armed hn with hbefore | ⟨rfl, _⟩
        · exact hi.disjoint n hbefore hold
        · exact lt_irrefl _ (hi.waiting_lt _ hold)
      · exact Finset.notMem_erase n _ hn

/-! ### Callbacks -/

/-- The timer whose callback waits for the lock. -/
def Pc.callback : Pc → Option TimerId
  | .timer n => some n
  | _ => none

theorem CloseBy.ret_callback (k : CloseBy) : k.ret.callback = none := by cases k <;> rfl

theorem Acts.callback (h : Acts s pc s' pc') (hn : pc'.callback = some n) :
    n ∈ s.timers.armed ∧ s' = { s with timers := s.timers.fire n } := by
  cases h with
  | callTimer m hm =>
      cases hn
      exact ⟨hm, rfl⟩
  | closeAgain c k | closeQuiet c k | forget c k =>
      rw [k.ret_callback] at hn
      cases hn
  | _ => cases hn

/-- A callback that waits goes on waiting until it has its critical section. -/
theorem Acts.waiting_stays (h : Acts s pc s' pc') (hn : n ∈ s.timers.waiting)
    (hpc : pc.callback ≠ some n) : n ∈ s'.timers.waiting := by
  cases h with
  | callTimer m => exact Finset.mem_insert_of_mem hn
  | timerSkip m | timerRemove m =>
      refine Finset.mem_erase.mpr ⟨fun e => hpc ?_, hn⟩
      rw [e]
      rfl
  | _ => exact hn

/-- The callbacks that wait for the lock are those of the fired timers, one for each. -/
structure Callbacks (w : World Shared Pc) : Prop where
  waiting : ∀ t n, (w.thr t).callback = some n → n ∈ w.shared.timers.waiting
  unshared : Unshared Pc.callback w.thr

theorem callbacks (h : system.Reach Undisturbed w) : Callbacks w := by
  refine system_invariant (I := Callbacks) ?_ ?_ h
  · refine ⟨fun t n hn => ?_, fun t u n hn => ?_⟩
    · cases hn
    · cases hn
  · intro w t ch s pc hr hi _ _ ha
    have hti := timed hr
    refine ⟨?_, hi.unshared.update fun n hn => .inr fun u _ hu => ?_⟩
    · refine forall_update
        (P := fun _ p => ∀ n, Pc.callback p = some n → n ∈ s.timers.waiting) ?_ ?_
      · intro n hn
        obtain ⟨_, rfl⟩ := ha.callback hn
        exact Finset.mem_insert_self n _
      · intro u hu n hn
        refine ha.waiting_stays (hi.waiting u n hn) fun hpc => hu ?_
        exact hi.unshared u t n hn hpc
    · exact hti.disjoint n (ha.callback hn).1 (hi.waiting u n hu)

/-! ### Closing -/

/-- The timer is the current one of a session that is in no list any more. -/
def Expired (s : Shared) (c : ClientId) (n : TimerId) : Prop :=
  n < s.timers.count ∧ s.timers.owner n = c ∧ Current s n ∧ ∀ key, c ∉ s.sessions.get key

theorem Acts.expired_stays (ha : Acts w.shared (w.thr t) s pc) (hl : Listing w)
    (hi : Timed w.shared) (he : Expired w.shared c n) : Expired s c n := by
  obtain ⟨hlt, rfl, ⟨htimer, hacquired⟩, hno⟩ := he
  have hmade := hi.made n hlt
  obtain ⟨howner, hat⟩ := ha.timer_owner hlt
  refine ⟨lt_of_lt_of_le hlt ha.timer_count, howner, ?_,
    fun key hc => hno key (ha.listed_before hl hmade hc)⟩
  unfold Current
  rw [howner, hat]
  have hact := ha.timerAct (w.shared.timers.owner n)
  have hfresh := hl.fresh t
  have hknows := hl.knows t
  generalize w.thr t = p at hact hfresh hknows
  generalize w.shared.timers.owner n = c at *
  cases hact with
  | keep e e' =>
      rw [e, e']
      exact ⟨htimer, hacquired⟩
  | reserve cfg todo => exact absurd (hknows List.mem_cons_self) (hno _)
  | commit cfg inf =>
      have := (hfresh c rfl).2
      omega
  | shared key m hmem | retired key m hmem | idle key m hmem => exact absurd hmem (hno key)

theorem Acts.expired (ha : Acts w.shared (w.thr t) s pc) (hl : Listing w) (hi : Timed w.shared)
    (hcb : Callbacks w) (hpc : pc = .close c (.timer n)) : Expired s c n := by
  have hwaiting := hcb.waiting t
  generalize w.thr t = p at ha hwaiting
  cases ha with
  | timerRemove m _ hmem hcount =>
      cases hpc
      have hw := hwaiting n rfl
      refine ⟨hi.waiting_lt n hw, rfl, ?_, hl.unlisted_of_remove hmem rfl⟩
      rcases hi.waiting n hw _ hmem with hpos | hcurrent
      · omega
      · exact hcurrent
  | closeAgain d k | closeQuiet d k | forget d k => exact absurd hpc (k.ret_ne_close _)
  | _ => cases hpc

/-- **The idle timeout counts from the last release.** In an undisturbed run the callback that
closes a tunnel is the one of the session's current timer, and the session was not acquired since
that timer was armed. -/
theorem idle_timer_current (h : system.Reach Undisturbed w) :
    ∀ t c n, w.thr t = .close c (.timer n) → w.shared.timers.owner n = c ∧
      (w.shared.managed c).idleTimer = some n ∧
      w.shared.hist.acquired c = w.shared.hist.armedAt n := by
  have hexpired : ∀ t c n, w.thr t = .close c (.timer n) → Expired w.shared c n := by
    refine system_invariant
      (I := fun w => ∀ t c n, w.thr t = .close c (.timer n) → Expired w.shared c n) ?_ ?_ h
    · intro t c n hpc
      cases hpc
    · intro w t ch s pc hr hi _ _ ha
      have hl := listing hr
      have hti := timed hr
      refine forall_update (P := fun _ p => ∀ c n, p = Pc.close c (.timer n) → Expired s c n) ?_ ?_
      · exact fun c n => ha.expired hl hti (callbacks hr)
      · exact fun u _ c n hpc => ha.expired_stays hl hti (hi u c n hpc)
  intro t c n hpc
  obtain ⟨_, rfl, ⟨htimer, hacquired⟩, _⟩ := hexpired t c n hpc
  exact ⟨rfl, htimer, hacquired⟩

/-- A tunnel is acquired and released. -/
def firstRelease : List (Label Choice Empty) :=
  connectScript 0 singleRealm 0 ++
    acts 0 (gos 4 ++ [.call (.release "camera" 0 (some 0)), .key (sessionKeyFor singleRealm)])

/-- It is acquired and released once more. -/
def secondRelease : List (Label Choice Empty) :=
  acts 0 ([.call (.acquire singleRealm)] ++ gos 5 ++
    [.call (.release "camera" 0 (some 1)), .key (sessionKeyFor singleRealm)])

/-- The second timer closes the tunnel. -/
theorem idle_timer_current_secondRelease :
    ∃ w, system.exec Undisturbed start
        (firstRelease ++ secondRelease ++ acts 1 [.call (.timer 1), .go]) = some w ∧
      w.thr 1 = .close 0 (.timer 1) ∧ w.shared.hist.acquired 0 = w.shared.hist.armedAt 1 := by
  have hrun : (system.exec Undisturbed start
      (firstRelease ++ secondRelease ++ acts 1 [.call (.timer 1), .go])).map (fun w => w.thr 1) =
        some (.close 0 (.timer 1)) := by
    decide +kernel
  obtain ⟨w, hw, he⟩ := Option.map_eq_some_iff.mp hrun
  exact ⟨w, hw, he, (idle_timer_current (reach_of_exec hw) 1 0 1 he).2.2⟩

/-- The first timer fires before the second acquisition, and its callback gets the lock after the
second release: it closes the tunnel, whose second timer is armed. -/
theorem idle_timer_outdated :
    ∃ w, system.Reach Paired w ∧ w.thr 1 = .close 0 (.timer 0) ∧
      w.shared.hist.armedAt 0 = 1 ∧ w.shared.hist.acquired 0 = 2 ∧
      (w.shared.managed 0).idleTimer = some 1 ∧ 1 ∈ w.shared.timers.armed := by
  have hrun : (system.exec Paired start
      (firstRelease ++ acts 1 [.call (.timer 0)] ++ secondRelease ++ acts 1 [.go])).map
        (fun w => decide (w.thr 1 = .close 0 (.timer 0) ∧ w.shared.hist.armedAt 0 = 1 ∧
          w.shared.hist.acquired 0 = 2 ∧ (w.shared.managed 0).idleTimer = some 1 ∧
          1 ∈ w.shared.timers.armed)) = some true := by
    decide +kernel
  obtain ⟨w, hw, he⟩ := Option.map_eq_some_iff.mp hrun
  exact ⟨w, reach_of_exec hw, of_decide_eq_true he⟩

end DahuaP2p.Manager
