import DahuaP2p.FleetManager
import DahuaP2p.ManagerHandshakes
import DahuaP2p.TunnelProgress

/-! # The manager does not deadlock with its tunnels

`Acquire` and `Release` ask tunnels with `m.mu` in their hands, so `m.mu` is taken before `t.mu`;
and `Close` runs the callback, which takes `m.mu`.  It does so after it has let go of `t.mu`, and so
the locks of the manager and of all tunnels are still taken in one order (`Resource.rank`).  Nobody
waits in a circle, and behind every goroutine that is stuck there is one that can go on, or a UDP
write that is blocked without a deadline (`fleet_no_deadlock`).

Such a write stops everything: who closes its tunnel waits for the permit with `t.mu`, and an
`Acquire` that looks at the tunnel waits for `t.mu` with `m.mu`. -/

namespace DahuaP2p.Fleet

open Threads
open Manager (ClientId CloseBy InflightId)

variable {s s' : Shared} {pc pc' : Pc} {w : World Shared Pc} {t : ℕ} {c : ClientId} {k : CloseBy}
  {p p' : Tunnel.Pc}

/-! ### `Release` in `IsRetired` -/

def Pc.checks : Pc → Bool
  | .checking _ _ _ => true
  | _ => false

theorem userAt_checks (c : ClientId) (p : Tunnel.Pc) : (userAt c p).checks = false := by
  unfold userAt
  split <;> rfl

theorem closingAt_checks (c : ClientId) (k : CloseBy) (p : Tunnel.Pc) :
    (closingAt c k p).checks = false := by
  unfold closingAt
  split <;> rfl

theorem Steps.releasing (h : Steps s c p s' p') : s'.releasing = s.releasing := by
  cases h <;> rfl

theorem Acts.releasing_move (h : Acts s pc s' pc') :
    Move (!s.releasing) pc.checks (!s'.releasing) pc'.checks := by
  cases h with
  | ask key c n hfree =>
      rw [(Bool.or_eq_false_iff.mp hfree).2]
      exact .take rfl
  | answer => exact .give _
  | manager | close | setOnClose => exact .keep _ _
  | method c call p' =>
      rw [userAt_checks]
      exact .keep _ _
  | own c p p' s' _ hs =>
      rw [hs.releasing]
      exact .keep _ _
  | user c p p' s' hs =>
      rw [userAt_checks, hs.releasing]
      exact .keep _ _
  | closing c p p' k s' hs =>
      rw [closingAt_checks, hs.releasing]
      exact .keep _ _

/-- Without `m.mu` the lists stay as they are. -/
theorem unlocked_keeps {m m' : Manager.Shared} {q q' : Manager.Pc} (h : Manager.Acts m q m' q')
    (hlocks : locks q = false) (hin : q.inLock = false) :
    m'.mu = m.mu ∧ m'.sessions = m.sessions := by
  cases h with
  | managerClosed | lock | commitFailed | commitClosed | commit | forgetLate | releaseShared
  | releaseRetired | releaseIdle | releaseUnknown | timerSkip | timerRemove | closeAll
  | forget => cases hlocks
  | pruned | pruneClosed | pruneOpen | reserve | skip | capacity | await | begin => cases hin
  | _ => exact ⟨rfl, rfl⟩

/-- While a `Release` has `m.mu`, the others leave the lists alone. -/
theorem Acts.keeps (h : Acts s pc s' pc') (hr : s.releasing = true) (hpc : pc.checks = false)
    (hin : pc.seen.inLock = false) :
    s'.manager.mu = s.manager.mu ∧ s'.manager.sessions = s.manager.sessions := by
  have hlocked : s.locked = true := by
    unfold Shared.locked
    rw [hr, Bool.or_true]
  have hsteps : ∀ {d : ClientId} {p p' : Tunnel.Pc}, Steps s d p s' p' →
      s'.manager.mu = s.manager.mu ∧ s'.manager.sessions = s.manager.sessions := by
    intro d p p' hs
    cases hs with
    | plain => exact ⟨rfl, rfl⟩
    | callback _ _ _ _ hfree =>
        rw [hlocked] at hfree
        cases hfree
  cases h with
  | manager q q' ch m _ hready hn =>
      have hlocks : locks q = false := by
        unfold ready at hready
        split at hready
        · cases hin
        · cases hin
        · rw [hr, Bool.and_true, Bool.not_eq_true'] at hready
          exact hready
      exact unlocked_keeps (m := s.view) (Manager.next_cases hn) hlocks hin
  | ask _ _ _ hfree =>
      rw [hlocked] at hfree
      cases hfree
  | answer => cases hpc
  | close | setOnClose | method => exact ⟨rfl, rfl⟩
  | own _ _ _ _ _ hs | user _ _ _ _ hs | closing _ _ _ _ _ hs => exact hsteps hs

/-- A `Release` asks a tunnel only with `m.mu`. -/
theorem Acts.asks (h : Acts s pc s' pc') (hr : s'.releasing = true) :
    s.releasing = true ∧ pc.checks = false ∧ pc'.checks = false ∨
    s.manager.mu = false ∧ s'.manager = s.manager ∧
      ∃ key c n, pc' = .checking key c n ∧ c ∈ s.manager.sessions.get key := by
  cases h with
  | ask key c n hfree hmem =>
      exact .inr ⟨(Bool.or_eq_false_iff.mp hfree).1, rfl, key, c, n, rfl, hmem⟩
  | answer => cases hr
  | manager | close | setOnClose => exact .inl ⟨hr, rfl, rfl⟩
  | method c call p' => exact .inl ⟨hr, rfl, userAt_checks c p'⟩
  | own _ _ _ _ _ hs => exact .inl ⟨hs.releasing.symm.trans hr, rfl, rfl⟩
  | user c p p' s' hs => exact .inl ⟨hs.releasing.symm.trans hr, rfl, userAt_checks c p'⟩
  | closing c p p' k s' hs => exact .inl ⟨hs.releasing.symm.trans hr, rfl, closingAt_checks c k p'⟩

/-- The state of a `Release` that asks a tunnel. -/
structure Checking (w : World Shared Pc) : Prop where
  lock : Exclusive (!w.shared.releasing) fun t => (w.thr t).checks
  alone : w.shared.releasing = true → w.shared.manager.mu = false
  listed : ∀ t key c n, w.thr t = .checking key c n → c ∈ w.shared.manager.sessions.get key

theorem Checking.releasing (h : Checking w) (hpc : (w.thr t).checks = true) :
    w.shared.releasing = true := by
  simpa using h.lock.not_free hpc

theorem startThreads_checks (t : ℕ) : (startThreads t).checks = false :=
  forall_startThreads (P := fun pc => pc.checks = false) (fun _ => rfl) (fun _ => rfl) rfl t

theorem checking (h : system.Reachable w) : Checking w := by
  refine interleave_invariant (I := Checking) ?_ ?_ ?_ h
  · rintro w ⟨_, hr, hthr, _⟩
    refine ⟨?_, ?_, ?_⟩
    · rw [hr, hthr]
      exact Exclusive.of_none startThreads_checks
    · rw [hr]
      exact Bool.false_ne_true.elim
    · intro t key c n hpc
      have hnot := startThreads_checks t
      rw [← hthr, hpc] at hnot
      cases hnot
  · intro w t ch s pc hreach hi _ hn
    have ha := next_acts hn
    have hlock : Exclusive (!s.releasing) fun u => (Function.update w.thr t pc u).checks :=
      hi.lock.update_thr ha.releasing_move
    have hnew : ∀ u, (Function.update w.thr t pc u).checks = true → s.releasing = true :=
      fun u hu => by simpa using hlock.not_free hu
    -- nobody else is in a critical section of the manager
    have hkeeps : w.shared.releasing = true → (w.thr t).checks = false →
        s.manager.mu = w.shared.manager.mu ∧ s.manager.sessions = w.shared.manager.sessions := by
      intro hr hpc
      refine ha.keeps hr hpc ?_
      have hx := Manager.lock_exclusive (managerOf_reachable hreach).1
      refine Bool.of_not_eq_true fun hin => ?_
      have hmu : w.shared.manager.mu = true := by
        simpa [managerOf, Shared.view] using hx.not_free (t := t) hin
      rw [hi.alone hr] at hmu
      cases hmu
    refine ⟨hlock, fun hr => ?_, fun u key c n hpc => ?_⟩
    · rcases ha.asks hr with ⟨hold, hpc, _⟩ | ⟨hmu, he, _⟩
      · rw [(hkeeps hold hpc).1]
        exact hi.alone hold
      · rw [he]
        exact hmu
    · change Function.update w.thr t pc u = .checking key c n at hpc
      have hu : (Function.update w.thr t pc u).checks = true := by
        rw [hpc]
        rfl
      rcases ha.asks (hnew u hu) with ⟨hold, hne, hnot⟩ | ⟨_, he, key', c', n', rfl, hmem⟩
      · by_cases hut : u = t
        · rw [hut, Function.update_self, hnot] at hu
          cases hu
        · rw [Function.update_of_ne hut] at hpc
          rw [(hkeeps hold hne).2]
          exact hi.listed u key c n hpc
      · obtain rfl : u = t := hlock.unique (by rw [Function.update_self]; rfl) hu
        rw [Function.update_self] at hpc
        cases hpc
        rw [he]
        exact hmem
  · rintro w d s _ hi _ hs
    cases hs
    exact ⟨hi.lock, hi.alone, hi.listed⟩

/-! ### What a goroutine waits for -/

/-- The locks of the manager and of the tunnels, and the handshakes others wait for. -/
inductive Resource where
  | manager
  | tunnel (c : ClientId) (r : Tunnel.Resource)
  | handshake (inf : InflightId)

/-- The order in which they are taken, the last one first. -/
def Resource.rank : Resource → ℕ
  | .tunnel _ r => r.rank
  | .manager => 5
  | .handshake _ => 6

def managerWants : Manager.Pc → Option Resource
  | .acquire _ (.prune (c :: _) _) => some (.tunnel c .mu)
  | .acquire _ (.select (c :: _)) => some (.tunnel c .mu)
  | .acquire _ (.setOnClose _ c _) => some (.tunnel c .mu)
  | .acquire _ (.wait inf) => some (.handshake inf)
  | p => if locks p then some .manager else none

/-- Inside a method of tunnel `c`.  The callback wants `m.mu`. -/
def tunnelWants (c : ClientId) : Tunnel.Pc → Option Resource
  | .close (.callback true) _ => some .manager
  | p => p.wants.map (.tunnel c)

/-- What the goroutine cannot go on without. -/
def Pc.wants : Pc → Option Resource
  | .manager p => managerWants p
  | .checking _ c _ => some (.tunnel c .mu)
  | .own c p => tunnelWants c p
  | .user c p => tunnelWants c p
  | .closing c p _ => tunnelWants c p

/-- The goroutine has `m.mu`. -/
def Pc.locking : Pc → Bool
  | .manager p => p.inLock
  | .checking _ _ _ => true
  | _ => false

def Shared.Holds (s : Shared) (pc : Pc) : Resource → Prop
  | .manager => pc.locking = true
  | .tunnel c r => c < s.manager.clients ∧ (pc.inside c).holds r = true
  | .handshake inf => pc.seen.owns = some inf

def waitGraph (w : World Shared Pc) : WaitGraph.Graph ℕ Resource where
  wants t := (w.thr t).wants
  holds t := w.shared.Holds (w.thr t)

theorem rank_tunnel (c : ClientId) (r : Tunnel.Resource) : (Resource.tunnel c r).rank < 5 := by
  cases r <;> exact of_decide_eq_true rfl

theorem managerWants_rank {q : Manager.Pc} {r : Resource} (h : managerWants q = some r) :
    r.rank < 6 ∨ q.owns = none := by
  unfold managerWants at h
  split at h
  · cases h
    exact .inr rfl
  · cases h
    exact .inr rfl
  · cases h
    exact .inl (Nat.lt_succ_of_lt (rank_tunnel _ _))
  · exact .inr rfl
  · split at h
    · cases h
      exact .inl (by decide)
    · cases h

theorem tunnelWants_cases {r : Resource} (h : tunnelWants c p = some r) :
    r = .manager ∧ (∀ r', p.holds r' = false) ∨ ∃ r', r = .tunnel c r' ∧ p.wants = some r' := by
  unfold tunnelWants at h
  split at h
  · cases h
    exact .inl ⟨rfl, fun r' => by cases r' <;> rfl⟩
  · obtain ⟨r', hr', rfl⟩ := Option.map_eq_some_iff.mp h
    exact .inr ⟨r', rfl, hr'⟩

/-- A goroutine inside a tunnel waits for something below what it holds there. -/
theorem tunnelWants_rank {d : ClientId} {r' : Resource} {q : Tunnel.Resource}
    (h : tunnelWants d p = some r') (hh : (if d = c then p else .idle).holds q = true) :
    r'.rank < q.rank := by
  split at hh
  · rcases tunnelWants_cases h with ⟨_, hnone⟩ | ⟨r, rfl, hr⟩
    · rw [hnone q] at hh
      cases hh
    · exact Tunnel.Pc.rank_lt hh hr
  · cases hh

theorem tunnelWants_lt {r : Resource} (h : tunnelWants c p = some r) : r.rank < 6 := by
  rcases tunnelWants_cases h with ⟨rfl, _⟩ | ⟨r', rfl, _⟩
  · decide
  · exact Nat.lt_succ_of_lt (rank_tunnel c r')

/-- **One order.** Whoever holds a lock waits only for one of lower rank. -/
theorem Shared.Holds.rank_lt {r r' : Resource} (hh : s.Holds pc r) (hw : pc.wants = some r') :
    r'.rank < r.rank := by
  cases r with
  | manager =>
      cases pc with
      | manager q =>
          cases q with
          | acquire cfg a =>
              cases a with
              | prune todo | select todo =>
                  cases todo with
                  | nil => cases hw
                  | cons =>
                      cases hw
                      exact rank_tunnel _ _
              | _ => cases hh
          | _ => cases hh
      | checking =>
          cases hw
          exact rank_tunnel _ _
      | _ => cases hh
  | tunnel c q =>
      cases pc with
      | own d p | user d p | closing d p k => exact tunnelWants_rank hw hh.2
      | _ => cases hh.2
  | handshake inf =>
      cases pc with
      | manager q =>
          rcases managerWants_rank hw with hlt | hnone
          · exact hlt
          · have howns : q.owns = some inf := hh
            rw [hnone] at howns
            cases howns
      | checking => cases hh
      | own | user | closing => exact tunnelWants_lt hw

theorem waitGraph_ordered (w : World Shared Pc) : (waitGraph w).Ordered Resource.rank :=
  fun _ _ _ => Shared.Holds.rank_lt

/-! ### Goroutines that are stuck -/

/-- The memory, some time later. -/
def Shared.after (s : Shared) (d : Tunnel.Time) : Shared :=
  { s with tunnels := fun c => { s.tunnels c with now := (s.tunnels c).now + d } }

/-- The choice is made by the kernel. -/
def Choice.ofKernel : Choice → Bool
  | .tunnel ch => ch.ofKernel
  | _ => false

/-- The goroutine can take no step, now or later, unless another one moves. -/
def Halted (s : Shared) (pc : Pc) : Prop :=
  ∀ d ch, ch.ofKernel = false → next (s.after d) pc ch = none

/-- The goroutine is in a call, or runs a tunnel. -/
def Pc.Running (s : Shared) : Pc → Prop
  | .manager p => p ≠ .idle
  | .checking _ _ _ => True
  | .own c p => c < s.manager.clients ∧ p ≠ .idle
  | .user _ p | .closing _ p _ => p ≠ .idle

/-- Somebody has it. -/
def Shared.Taken (s : Shared) : Resource → Prop
  | .manager => s.locked = true
  | .tunnel c r => c < s.manager.clients ∧ (s.tunnels c).free r = false
  | .handshake inf => inf < s.manager.connCount ∧ (s.manager.conns inf).done = false

theorem seen_inLock (c : ClientId) (k : CloseBy) (p : Tunnel.Pc) : (seen c k p).inLock = false := by
  unfold seen
  split
  · split
    · rfl
    · exact k.ret_inLock
  · split
    · rfl
    · exact k.ret_inLock

theorem Pc.locking_of_inLock (h : pc.seen.inLock = true) : pc.locking = true := by
  cases pc with
  | manager q => exact h
  | checking => rfl
  | own c p | user c p | closing c p k =>
      change (Fleet.seen c _ p).inLock = true at h
      rw [seen_inLock] at h
      cases h

theorem Pc.locking_of_checks (h : pc.checks = true) : pc.locking = true := by
  cases pc with
  | checking => rfl
  | _ => cases h

/-- What is taken has a holder. -/
theorem taken_held (h : system.Reachable w) {r : Resource} (hr : w.shared.Taken r) :
    ∃ u, (waitGraph w).holds u r := by
  obtain ⟨hm, _, _⟩ := managerOf_reachable h
  cases r with
  | manager =>
      rcases Bool.or_eq_true_iff.mp hr with hmu | hrel
      · obtain ⟨u, hu⟩ := (Manager.lock_exclusive hm).exists_holder
          (by simpa [managerOf, Shared.view] using hmu)
        exact ⟨u, Pc.locking_of_inLock hu⟩
      · obtain ⟨u, hu⟩ := (checking h).lock.exists_holder (by simpa using hrel)
        exact ⟨u, Pc.locking_of_checks hu⟩
  | tunnel c r =>
      obtain ⟨u, hu⟩ := (Tunnel.resource_exclusive (tunnelOf_reachable h c) r).exists_holder hr.2
      exact ⟨place c u, hr.1, hu⟩
  | handshake inf =>
      rcases (Manager.handshakes hm).settled inf hr.1 with hdone | hown
      · have hnot : (w.shared.manager.conns inf).done = false := hr.2
        change (w.shared.manager.conns inf).done = true at hdone
        rw [hnot] at hdone
        cases hdone
      · exact hown

/-- Inside a method. -/
theorem inMethod_halted (hidle : p ≠ .idle) (h : ∀ d ch, ch.ofKernel = false →
      inMethod (s.after d) c p ch = none) :
    s.locked = true ∧ (∃ j, p = .close (.callback true) j) ∨
    (∀ j, p ≠ .close (.callback true) j) ∧ Tunnel.Halted (s.tunnels c) p := by
  by_cases hcb : ∃ j, p = .close (.callback true) j
  · obtain ⟨j, rfl⟩ := hcb
    refine .inl ⟨by_contra fun hfree => ?_, j, rfl⟩
    have hgo := h 0 .go rfl
    have hstep : inMethod (s.after 0) c (.close (.callback true) j) .go ≠ none := by
      have hopen : ¬ (s.after 0).locked = true := hfree
      simp [inMethod, hopen, inTunnel, Tunnel.next, Tunnel.stepClose]
    exact hstep hgo
  · refine .inr ⟨fun j hj => hcb ⟨j, hj⟩, fun d ch hk => ?_⟩
    have hin := h d ch hk
    unfold inMethod at hin
    split at hin
    · exact absurd rfl hidle
    · exact absurd ⟨_, rfl⟩ hcb
    · exact Option.map_eq_none_iff.mp hin

/-- The goroutine waits for something that is taken. -/
def Shared.Waits (s : Shared) (pc : Pc) : Prop := ∃ r, pc.wants = some r ∧ s.Taken r

/-- Why a goroutine inside a method is stuck. -/
theorem inMethod_reason (hidle : p ≠ .idle) (hlt : c < s.manager.clients)
    (hs : Tunnel.Sane (s.tunnels c) p) (hfresh : ∃ id, (s.tunnels c).table.lookup id = none)
    (h : ∀ d ch, ch.ofKernel = false → inMethod (s.after d) c p ch = none) :
    (∃ r, tunnelWants c p = some r ∧ s.Taken r) ∨ (∃ i, (s.tunnels c).BlockedWrite i p) ∨
      ∃ i n d ch, p = .read (.select i n d ch) := by
  rcases inMethod_halted hidle h with ⟨hlocked, j, rfl⟩ | ⟨hcb, hhalt⟩
  · exact .inl ⟨.manager, rfl, hlocked⟩
  · rcases hhalt.reason hs hfresh hidle with ⟨r, hr, htaken⟩ | hb | hread
    · refine .inl ⟨.tunnel c r, ?_, hlt, htaken⟩
      unfold tunnelWants
      split
      · exact absurd rfl (hcb _)
      · rw [hr]
        rfl
    · exact .inr (.inl hb)
    · exact .inr (.inr hread)

section manager
variable {q : Manager.Pc}

/-- The manager's model goes on when `m.mu` is free. -/
theorem locks_enabled {m : Manager.Shared} (hq : locks q = true) (hmu : m.mu = false) :
    ∃ ch, Manager.next m q ch ≠ none := by
  cases q with
  | acquire cfg a =>
      refine ⟨.go, ?_⟩
      cases a with
      | lock =>
          simp only [Manager.next, Manager.stepAcquire, hmu, Bool.false_eq_true, if_false]
          split <;> exact Option.some_ne_none _
      | commit inf client =>
          simp only [Manager.next, Manager.stepAcquire, hmu, Bool.false_eq_true, if_false]
          cases client with
          | none => exact Option.some_ne_none _
          | some c =>
              dsimp only
              split <;> exact Option.some_ne_none _
      | forget => simp [Manager.next, Manager.stepAcquire, hmu]
      | _ => cases hq
  | release serial c n =>
      by_cases hlisted : ∃ key, key.serial = serial ∧ c ∈ m.sessions.get key
      · obtain ⟨key, hfound⟩ := hlisted
        refine ⟨.key key, ?_⟩
        simp [Manager.next, Manager.stepRelease, hmu, hfound]
      · refine ⟨.go, ?_⟩
        have hno : ∀ key ∈ m.sessions.keys, key.serial = serial → c ∉ m.sessions.get key :=
          fun key _ hs hc => hlisted ⟨key, hs, hc⟩
        simp [Manager.next, Manager.stepRelease, if_pos (And.intro hmu hno)]
  | timer n =>
      refine ⟨.go, ?_⟩
      simp only [Manager.next, Manager.stepTimer, hmu, Bool.false_eq_true, if_false]
      split <;> exact Option.some_ne_none _
  | closeAll =>
      refine ⟨.keys m.sessions.keys, ?_⟩
      simp [Manager.next, Manager.stepCloseAll, hmu]
  | forget c k => exact ⟨.go, by simp [Manager.next, hmu]⟩
  | _ => cases hq

theorem inManager_ne_none {ch : Manager.Choice} (hready : ready s q = true)
    (hn : Manager.next s.view q ch ≠ none) : inManager s q ch ≠ none := by
  rw [inManager, if_pos hready]
  exact fun hnone => hn (Option.map_eq_none_iff.mp hnone)

theorem ready_of_free (hq : q.inLock = false) (hfree : s.locked = false) : ready s q = true := by
  unfold ready
  split
  · cases hq
  · cases hq
  · rw [(Bool.or_eq_false_iff.mp hfree).2, Bool.and_false]
    rfl

/-- Who wants `m.mu` gets it when it is free. -/
theorem stepManager_free (hq : locks q = true) (hfree : s.locked = false) :
    ∃ ch, stepManager s q ch ≠ none := by
  have hin : q.inLock = false := by
    unfold locks at hq
    split at hq <;> first | rfl | cases hq
  have hready := ready_of_free hin hfree
  obtain ⟨ch, hn⟩ := locks_enabled (m := s.view) hq (Bool.or_eq_false_iff.mp hfree).1
  refine ⟨ch, ?_⟩
  unfold stepManager
  split
  · cases hq
  · cases hq
  · next serial c n key =>
      split
      · exact inManager_ne_none hready hn
      · have hfound : s.view.mu = false ∧ key.serial = serial ∧ c ∈ s.view.sessions.get key :=
          by_contra fun hno => hn (if_neg hno)
        rw [if_pos ⟨hfree, hfound.2⟩]
        exact Option.some_ne_none _
  · cases hq
  · cases hq
  · exact inManager_ne_none hready hn

theorem next_manager (s : Shared) (q : Manager.Pc) (ch : Manager.Choice) :
    next s (.manager q) (.manager ch) = stepManager s q ch := by
  cases q <;> rfl

/-- Why a goroutine of the manager is stuck. -/
theorem Halted.of_manager (h : Halted s (.manager q)) (hidle : q ≠ .idle)
    (hknows : ∀ c, managerWants q = some (.tunnel c .mu) → c < s.manager.clients)
    (hwaits : ∀ cfg inf, q = .acquire cfg (.wait inf) → inf < s.manager.connCount) :
    s.Waits (.manager q) := by
  have hstep : ∀ ch, stepManager s q ch = none :=
    fun ch => (next_manager s q ch).symm.trans (h 0 (.manager ch) rfl)
  -- for `m.mu`
  have hlocks : locks q = true → managerWants q = some .manager → s.Waits (.manager q) := by
    intro hq hwants
    refine ⟨.manager, hwants, by_contra fun hfree => ?_⟩
    obtain ⟨ch, hch⟩ := stepManager_free hq (Bool.of_not_eq_true hfree)
    exact hch (hstep ch)
  have hgo := hstep .go
  -- for `t.mu` of the tunnel it looks at
  have hasks : ∀ c, ready s q = (s.tunnels c).free .mu → inManager s q .go = none →
      Manager.next s.view q .go ≠ none → (s.tunnels c).free .mu = false := by
    intro c hready hnone hn
    exact Bool.of_not_eq_true fun hfree => inManager_ne_none (hready.trans hfree) hn hnone
  cases q with
  | idle => exact absurd rfl hidle
  | release | timer | closeAll | forget => exact hlocks rfl rfl
  | closing todo => cases todo <;> cases hgo
  | close => cases hgo
  | acquire cfg a =>
      cases a with
      | lock | commit | forget => exact hlocks rfl rfl
      | prune todo live =>
          cases todo with
          | nil => cases hgo
          | cons c todo =>
              refine ⟨.tunnel c .mu, rfl, hknows c rfl, hasks c rfl hgo ?_⟩
              simp only [Manager.next, Manager.stepAcquire]
              split <;> exact Option.some_ne_none _
      | select todo =>
          cases todo with
          | nil =>
              refine absurd hgo (inManager_ne_none rfl ?_)
              simp only [Manager.next, Manager.stepAcquire]
              split
              · exact Option.some_ne_none _
              · split <;> exact Option.some_ne_none _
          | cons c todo =>
              refine ⟨.tunnel c .mu, rfl, hknows c rfl, hasks c rfl hgo ?_⟩
              simp only [Manager.next, Manager.stepAcquire]
              split
              · exact Option.some_ne_none _
              · split <;> exact Option.some_ne_none _
      | wait inf =>
          refine ⟨.handshake inf, rfl, hwaits cfg inf rfl, Bool.of_not_eq_true fun hdone => ?_⟩
          have hdone' : (s.view.conns inf).done = true := hdone
          refine absurd hgo (inManager_ne_none rfl ?_)
          simp only [Manager.next, Manager.stepAcquire, hdone', if_true]
          split <;> exact Option.some_ne_none _
      | connect inf => cases hstep (.handshake false)
      | setOnClose inf c n =>
          refine ⟨.tunnel c .mu, rfl, hknows c rfl, Bool.of_not_eq_true fun hfree => ?_⟩
          have hmu : (s.tunnels c).locks.mu = false := by simpa [Tunnel.Shared.free] using hfree
          have hcall : Tunnel.next (s.tunnels c) .idle (.call .setOnClose) ≠ none := by
            simp only [Tunnel.next, Tunnel.stepCall, hmu, Bool.false_eq_true, if_false]
            split <;> exact Option.some_ne_none _
          exact hcall (Option.map_eq_none_iff.mp (Option.map_eq_none_iff.mp hgo))
      | finish => cases hgo
      | ret r => cases r <;> cases hgo

end manager

/-- The manager only asks tunnels that exist. -/
theorem managerWants_known {m : World Manager.Shared Manager.Pc} (h : Manager.system.Reachable m)
    (hw : managerWants (m.thr t) = some (.tunnel c .mu)) : c < m.shared.clients := by
  have hl := Manager.listing h
  have hknows := hl.knows t
  have hnamed := (Manager.known h).1 t c
  generalize m.thr t = q at hw hknows hnamed
  unfold managerWants at hw
  split at hw
  · cases hw
    exact hl.lt_clients (hknows.1.subset (List.mem_append_right _ List.mem_cons_self))
  · cases hw
    exact hl.lt_clients (hknows List.mem_cons_self)
  · cases hw
    exact hnamed List.mem_cons_self
  · cases hw
  · split at hw <;> cases hw

/-- A `Release` that asks a tunnel goes on when it gets `t.mu`. -/
theorem checking_waits (hc : Checking w) {key : Manager.SessionKey} {n : Option Manager.Ticket}
    (hpc : w.thr t = .checking key c n) (h : stepChecking w.shared key c n = none) :
    (w.shared.tunnels c).free .mu = false := by
  refine Bool.of_not_eq_true fun hfree => ?_
  have hmu : ¬ (w.shared.tunnels c).locks.mu = true := by simpa [Tunnel.Shared.free] using hfree
  have hrel := hc.releasing (t := t) (by rw [hpc]; rfl)
  have hfound : w.shared.view.mu = false ∧ key.serial = key.serial ∧
      c ∈ w.shared.view.sessions.get key := ⟨hc.alone hrel, rfl, hc.listed t key c n hpc⟩
  rw [stepChecking, if_neg hmu, Option.map_eq_none_iff] at h
  have hstep : Manager.next w.shared.view (.release key.serial c n) (.key key) =
      some (Manager.releaseFound w.shared.view key c n, .idle) := if_pos hfound
  rw [hstep] at h
  cases h

/-- **Why a goroutine is stuck**: it waits for something that is taken, its UDP write is blocked
without a deadline, or it is a `Read` that waits for data. -/
theorem halted_reason (h : system.Reachable w)
    (hfresh : ∀ c < w.shared.manager.clients, ∃ id, (w.shared.tunnels c).table.lookup id = none)
    (hrun : (w.thr t).Running w.shared) (hhalt : Halted w.shared (w.thr t)) :
    w.shared.Waits (w.thr t) ∨
      (∃ c i, (w.shared.tunnels c).BlockedWrite i ((w.thr t).inside c)) ∨
      ∃ c i n d ch, (w.thr t).inside c = .read (.select i n d ch) := by
  obtain ⟨hm, hsound, _⟩ := managerOf_reachable h
  have hsane : ∀ c, (w.thr t).inside c ≠ .idle →
      Tunnel.Sane (w.shared.tunnels c) ((w.thr t).inside c) := by
    intro c hne
    obtain ⟨u, hu⟩ := (placed h t).exists_place (Pc.mayEnter hne)
    rw [← hu]
    exact Tunnel.sane (tunnelOf_reachable h c) u
  -- inside a method of tunnel `c`
  have hinside : ∀ c p, (w.thr t).inside c = p → p ≠ .idle → c < w.shared.manager.clients →
      (w.thr t).wants = tunnelWants c p →
      (∀ d ch, ch.ofKernel = false → inMethod (w.shared.after d) c p ch = none) →
      w.shared.Waits (w.thr t) ∨
        (∃ c i, (w.shared.tunnels c).BlockedWrite i ((w.thr t).inside c)) ∨
        ∃ c i n d ch, (w.thr t).inside c = .read (.select i n d ch) := by
    intro c p hp hne hlt hwants hnone
    have hs := hsane c (hp ▸ hne)
    rw [hp] at hs
    rcases inMethod_reason hne hlt hs (hfresh c hlt) hnone with
      ⟨r, hr, htaken⟩ | ⟨i, hb⟩ | ⟨i, n, d, ch, hread⟩
    · exact .inl ⟨r, hwants.trans hr, htaken⟩
    · exact .inr (.inl ⟨c, i, hp ▸ hb⟩)
    · exact .inr (.inr ⟨c, i, n, d, ch, hp.trans hread⟩)
  have hs := hsound t
  have hthr : ∃ pc, w.thr t = pc := ⟨_, rfl⟩
  obtain ⟨pc, hpc⟩ := hthr
  rw [hpc] at hinside hs hrun hhalt ⊢
  cases pc with
  | manager q =>
      have hseen : (managerOf w).thr t = q := by
        change (w.thr t).seen = q
        rw [hpc]
        rfl
      refine .inl (hhalt.of_manager hrun (fun c hw => ?_) fun cfg inf hq => ?_)
      · exact managerWants_known hm (t := t) (hseen.symm ▸ hw)
      · exact (Manager.handshakes hm).waiting t cfg inf (hseen.trans hq)
  | checking key c n =>
      have hlt : c < w.shared.manager.clients :=
        (Manager.listing hm).lt_clients ((checking h).listed t key c n hpc)
      exact .inl ⟨.tunnel c .mu, rfl, hlt,
        checking_waits (checking h) hpc (hhalt 0 (.manager .go) rfl)⟩
  | own c p =>
      refine hinside c p (if_pos rfl) hrun.2 hrun.1 rfl fun d ch hk => ?_
      have hnone := hhalt d (.tunnel ch) hk
      have hstep : next (w.shared.after d) (.own c p) (.tunnel ch) =
          (inMethod (w.shared.after d) c p ch).map fun r => (r.1, .own c r.2) := if_pos hrun.1
      rw [hstep] at hnone
      exact Option.map_eq_none_iff.mp hnone
  | user c p =>
      exact hinside c p (if_pos rfl) hrun hs rfl fun d ch hk =>
        Option.map_eq_none_iff.mp (hhalt d (.tunnel ch) hk)
  | closing c p k =>
      exact hinside c p (if_pos rfl) hrun hs.1 rfl fun d ch hk =>
        Option.map_eq_none_iff.mp (hhalt d (.tunnel ch) hk)

theorem seen_user_owns (c : ClientId) (p : Tunnel.Pc) : (seen c .user p).owns = none := by
  unfold seen
  split
  · split <;> rfl
  · split <;> rfl

/-- Inside tunnel `c`, or not. -/
theorem ite_ne_read {d : ClientId} (hp : ∀ i n dl ch, p ≠ .read (.select i n dl ch))
    (i : Tunnel.ConnId) (n : ℕ) (dl : Tunnel.Time) (ch : ℕ) :
    (if d = c then p else .idle) ≠ .read (.select i n dl ch) := by
  split
  · exact hp i n dl ch
  · simp

/-- Who holds something is in the middle of a call. -/
theorem Shared.Holds.running {r : Resource} (hh : s.Holds pc r) (hs : pc.Sound s.manager.clients) :
    pc.Running s ∧ ∀ c i n d ch, pc.inside c ≠ .read (.select i n d ch) := by
  cases r with
  | manager =>
      cases pc with
      | manager q =>
          refine ⟨?_, fun _ _ _ _ _ => by simp [Pc.inside]⟩
          rintro rfl
          cases hh
      | checking => exact ⟨trivial, fun _ _ _ _ _ => by simp [Pc.inside]⟩
      | _ => cases hh
  | tunnel c r =>
      obtain ⟨hlt, hheld⟩ := hh
      have hinside : ∀ {d : ClientId} {p : Tunnel.Pc}, (if d = c then p else .idle).holds r = true →
          d = c ∧ p ≠ .idle ∧ ∀ i n dl ch, p ≠ .read (.select i n dl ch) := by
        intro d p hp
        split at hp
        · next hd =>
            refine ⟨hd, ?_, ?_⟩
            · rintro rfl
              cases hp
            · rintro i n dl ch rfl
              cases hp
        · cases hp
      cases pc with
      | manager | checking => cases hheld
      | own d p =>
          obtain ⟨rfl, hne, hread⟩ := hinside hheld
          exact ⟨⟨hlt, hne⟩, fun _ => ite_ne_read hread⟩
      | user d p | closing d p k =>
          obtain ⟨-, hne, hread⟩ := hinside hheld
          exact ⟨hne, fun _ => ite_ne_read hread⟩
  | handshake inf =>
      cases pc with
      | manager q =>
          refine ⟨?_, fun _ _ _ _ _ => by simp [Pc.inside]⟩
          rintro rfl
          cases hh
      | checking => cases hh
      | own c p | user c p =>
          change (Fleet.seen c .user p).owns = some inf at hh
          rw [seen_user_owns] at hh
          cases hh
      | closing c p k =>
          obtain ⟨_, hcall⟩ := hs
          refine ⟨?_, fun _ => ite_ne_read ?_⟩
          · rintro rfl
            cases hcall
          · rintro i n dl ch rfl
            cases hcall

/-- **No deadlock.**  In every reachable state in which each tunnel has a free realm ID, no
goroutines of the manager and of the tunnels wait for each other in a circle, and behind every one
that is stuck and is no `Read` waiting for data there is one that can go on, or a UDP write that is
blocked without a deadline. -/
theorem fleet_no_deadlock (h : system.Reachable w)
    (hfresh : ∀ c < w.shared.manager.clients, ∃ id, (w.shared.tunnels c).table.lookup id = none) :
    (∀ t, ¬ Relation.TransGen (waitGraph w).WaitsFor t t) ∧
    ∀ t, (w.thr t).Running w.shared → Halted w.shared (w.thr t) →
      (∃ c i n d ch, (w.thr t).inside c = .read (.select i n d ch)) ∨
      ∃ u, Relation.ReflTransGen (waitGraph w).WaitsFor t u ∧ (w.thr u).Running w.shared ∧
        (¬ Halted w.shared (w.thr u) ∨
          ∃ c i, (w.shared.tunnels c).BlockedWrite i ((w.thr u).inside c)) := by
  refine ⟨(waitGraph_ordered w).acyclic, fun t hrun hhalt => ?_⟩
  rcases halted_reason h hfresh hrun hhalt with ⟨r, hr, htaken⟩ | hb | hread
  · obtain ⟨u, q, hchain, hq, hend⟩ :=
      (waitGraph_ordered w).wait_ends (fun r => taken_held h) hr htaken
    have hsound := (managerOf_reachable h).2.1 u
    obtain ⟨hu, hnoread⟩ := Shared.Holds.running hq hsound
    refine .inr ⟨u, hchain.to_reflTransGen, hu, ?_⟩
    by_cases hstuck : Halted w.shared (w.thr u)
    · rcases halted_reason h hfresh hu hstuck with ⟨r', hr', htaken'⟩ | hb | ⟨c, i, n, d, ch, he⟩
      · exact absurd htaken' (hend r' hr')
      · exact .inr hb
      · exact absurd he (hnoread c i n d ch)
    · exact .inl hstuck
  · exact .inr ⟨t, .refl, hrun, .inr hb⟩
  · exact .inl hread

/-! ### A run -/

/-- A run of tunnel `0`. -/
def inFirst : Label Tunnel.Choice Tunnel.Time → Label Choice Tunnel.Time
  | .thread u (.call k) => .thread (place 0 u) (.method 0 k)
  | .thread u ch => .thread (place 0 u) (.tunnel ch)
  | .env d => .env d

/-- A write of a realm blocks.  An ACK flush waits for the permit with `ackMu`, `Close` for `ackMu`
with `t.mu`, and an `Acquire` for `t.mu` with `m.mu`; then comes a `Release`. -/
def behindWriteScript : List (Label Choice Tunnel.Time) :=
  acquireScript 2 Manager.singleRealm ++
    (Tunnel.blockedScript ++ Tunnel.receiveScript Ptcp.newHeartbeatBody 2 ++
      Tunnel.acts 4 (.call (.flushACK 0) :: Tunnel.gos 2) ++
      Tunnel.acts 5 [.call .close, .go]).map inFirst ++
    managerActs 14 [.call (.acquire Manager.singleRealm), .go] ++
    managerActs 17 [.call (.release "camera" 0 (some 0))]

theorem halted_release (hmu : s.manager.mu = true) (serial : String) (c : ClientId)
    (n : Option Manager.Ticket) : Halted s (.manager (.release serial c n)) := by
  intro d ch _
  have hmu' : (s.after d).view.mu = true := hmu
  have hlocked : (s.after d).locked = true := Bool.or_eq_true_iff.mpr (.inl hmu)
  have hin : ∀ ch, inManager (s.after d) (.release serial c n) ch = none := by
    intro ch
    have hnone : Manager.next (s.after d).view (.release serial c n) ch = none := by
      cases ch <;> simp [Manager.next, Manager.stepRelease, hmu']
    rw [inManager, hnone, Option.map_none, ite_self]
  cases ch with
  | manager ch =>
      cases ch with
      | key key =>
          simp only [next, stepManager, hin, hlocked]
          simp
      | _ => exact hin _
  | _ => rfl

/-- The `Release` waits for the UDP write. -/
theorem fleet_no_deadlock_behindWrite :
    ∃ w, system.exec (fun _ _ => True) (start 1 Ptcp.newSession) behindWriteScript = some w ∧
      w.thr 17 = .manager (.release "camera" 0 (some 0)) ∧ Halted w.shared (w.thr 17) ∧
      ∃ u, Relation.ReflTransGen (waitGraph w).WaitsFor 17 u ∧ (w.thr u).Running w.shared ∧
        (¬ Halted w.shared (w.thr u) ∨
          ∃ c i, (w.shared.tunnels c).BlockedWrite i ((w.thr u).inside c)) := by
  have hrun : (system.exec (fun _ _ => True) (start 1 Ptcp.newSession) behindWriteScript).map
      (fun w => decide (w.thr 17 = .manager (.release "camera" 0 (some 0)) ∧
        w.shared.manager.mu = true ∧ w.shared.manager.clients = 1 ∧
        (w.shared.tunnels 0).table.lookup 8 = none)) = some true := by
    decide +kernel
  obtain ⟨w, hw, he⟩ := Option.map_eq_some_iff.mp hrun
  obtain ⟨h17, hmu, hclients, hfresh⟩ := of_decide_eq_true he
  have hhalt : Halted w.shared (w.thr 17) := h17 ▸ halted_release hmu "camera" 0 (some 0)
  have hfree : ∀ c < w.shared.manager.clients,
      ∃ id, (w.shared.tunnels c).table.lookup id = none := by
    intro c hc
    obtain rfl : c = 0 := by
      rw [hclients] at hc
      exact Nat.lt_one_iff.mp hc
    exact ⟨8, hfresh⟩
  obtain ⟨_, hbehind⟩ := fleet_no_deadlock (reach_of_exec (by decide) hw) hfree
  refine ⟨w, hw, h17, hhalt, ?_⟩
  rcases hbehind 17 (by simp [h17, Pc.Running]) hhalt with ⟨c, i, n, d, ch, hread⟩ | hsource
  · rw [h17] at hread
    cases hread
  · exact hsource

end DahuaP2p.Fleet
