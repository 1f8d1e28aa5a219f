import DahuaP2p.TunnelDials
import DahuaP2p.TunnelShutdown
import DahuaP2p.WaitGraph

/-! # Progress

A goroutine of a tunnel waits for one of the four mutexes or for the send permit, and it may hold
others of them meanwhile.  `Pc.wants` says what it waits for.  The resources are always taken in
the order of `Resource.rank`, so nobody waits in a circle, and behind every goroutine that is stuck
there is one that can go on or a UDP write that is blocked without a deadline (`no_deadlock`).  A
`Read` without data waits for the peer, not for a goroutine.

If nobody can go on and no write is blocked, the tunnel is finished: it is closed with all its
calls returned (`stuck_finished`). -/

namespace DahuaP2p.Tunnel

open BigEndian Ptcp Threads

variable {s s' : Shared} {pc pc' : Pc} {c : ConnId} {w : World Shared Pc}
  {ok : World Shared Pc → Label Choice Time → Prop}

/-! ### What a goroutine waits for -/

def SendPc.wants : SendPc → Option Resource
  | await => some .permit
  | select _ _ => some .permit
  | lockDeadline => some .writeDeadlineMu
  | relockDeadline _ => some .writeDeadlineMu
  | _ => none

def SignalPc.wants : SignalPc → Option Resource
  | lockDeadline => some .writeDeadlineMu
  | _ => none

def ClosePc.wants : ClosePc → Option Resource
  | enter => some .mu
  | stopAck => some .ackMu
  | _ => none

def DialPc.wants : DialPc → Option Resource
  | enter _ => some .mu
  | lock _ => some .dialMu
  | recheck _ => some .mu
  | report => some .mu
  | _ => none

/-- The resource without which the goroutine cannot take its next action. -/
def Pc.wants : Pc → Option Resource
  | .send p _ => p.wants
  | .signal p _ _ => p.wants
  | .close p _ => p.wants
  | .reader .ack => some .ackMu
  | .heartbeat .begin => some .mu
  | .flush .lock => some .ackMu
  | .dial p => p.wants
  | .connClose (.check _) => some .mu
  | .write (.check _ _) => some .mu
  | .deadline (.lock _ _) => some .writeDeadlineMu
  | _ => none

/-- The order in which the resources are taken, the last one first. -/
def Resource.rank : Resource → ℕ
  | .writeDeadlineMu => 0
  | .permit => 1
  | .ackMu => 2
  | .mu => 3
  | .dialMu => 4

section ranks
variable {r r' : Resource}

/-- The callers of `sendPacketFor` hold resources above those that it takes. -/
theorem SendCall.rank_of_holds {k : SendCall} (h : k.holds r = true) : 1 < r.rank := by
  cases k <;> cases r <;> first | decide | cases h

theorem SendPc.rank_of_wants {p : SendPc} (h : p.wants = some r) : r.rank ≤ 1 := by
  cases p with
  | await | select | lockDeadline | relockDeadline =>
      cases h
      decide
  | _ => cases h

theorem SendPc.rank_lt {p : SendPc} (hh : p.holds r = true) (hw : p.wants = some r') :
    r'.rank < r.rank := by
  cases p with
  | lockDeadline | relockDeadline =>
      cases hw
      cases r <;> first | decide | cases hh
  | await | select => cases r <;> cases hh
  | _ => cases hw

/-- Whoever holds a resource waits only for one of lower rank. -/
theorem Pc.rank_lt (hh : pc.holds r = true) (hw : pc.wants = some r') : r'.rank < r.rank := by
  cases pc with
  | send p k =>
      rcases Bool.or_eq_true_iff.mp hh with hp | hk
      · exact SendPc.rank_lt hp hw
      · exact lt_of_le_of_lt (SendPc.rank_of_wants hw) (SendCall.rank_of_holds hk)
  | signal p c k =>
      cases p with
      | lockDeadline =>
          cases hw
          cases k <;> cases r <;> first | decide | cases hh
      | _ => cases hw
  | close p k =>
      cases p with
      | enter => cases r <;> cases hh
      | stopAck =>
          cases hw
          cases r <;> first | decide | cases hh
      | _ => cases hw
  | dial p =>
      cases p with
      | enter | lock => cases r <;> cases hh
      | recheck | report =>
          cases hw
          cases r <;> first | decide | cases hh
      | _ => cases hw
  | flush p =>
      cases p with
      | lock => cases r <;> cases hh
      | sent => cases hw
  | deadline p =>
      cases p with
      | lock => cases r <;> cases hh
      | _ => cases hw
  | _ => cases hh

end ranks

/-- The goroutines of a tunnel, by what they wait for and what they hold. -/
def waitGraph (w : World Shared Pc) : WaitGraph.Graph ℕ Resource where
  wants t := (w.thr t).wants
  holds t r := (w.thr t).holds r = true

theorem waitGraph_ordered (w : World Shared Pc) : (waitGraph w).Ordered Resource.rank :=
  fun _ _ _ => Pc.rank_lt

/-! ### Goroutines that are stuck -/

/-- What the tunnel knows about a goroutine and the memory in every reachable state, as far as it
matters for its next action. -/
structure Sane (s : Shared) (pc : Pc) : Prop where
  writerOnly : pc.WriterOnly
  token : pc.holds .permit = true → s.permit.token = false
  once : pc.pastOnce = true → s.permit.once = true
  answer : ∀ r, (next s (.reader (.conn r)) .go).isSome = true

theorem sane (h : system.Reach ok w) (t : ℕ) : Sane w.shared (w.thr t) :=
  ⟨writerOnly h t, token_of_holds h, once_of_pastOnce h t, conn_enabled (waitingEntries h)⟩

/-- The goroutine waits for a resource that is taken. -/
def Shared.Waits (s : Shared) (pc : Pc) : Prop := ∃ r, pc.wants = some r ∧ s.free r = false

/-- A sender that is stuck waits for a resource, or its UDP write is blocked. -/
theorem Halted.of_send {p : SendPc} {k : SendCall} (h : Halted s (.send p k))
    (hs : Sane s (.send p k)) : s.Waits (.send p k) ∨ ∃ c, s.BlockedWrite c (.send p k) := by
  have hw := hs.writerOnly
  cases p with
  | enter =>
      have hgo := h.now .go rfl
      simp only [next, stepSend] at hgo
      split at hgo <;> cases hgo
  | await =>
      have hgo := h.now .go rfl
      simp [next, stepSend] at hgo
      exact Or.inl ⟨.permit, rfl, by simp [Shared.free, hgo, hs.once rfl]⟩
  | check =>
      obtain ⟨c, hk⟩ := Option.ne_none_iff_exists'.mp (hw.1 rfl)
      have hgo := h.now .go rfl
      simp only [next, stepSend, hk, stepAcquire] at hgo
      split at hgo <;> (try split at hgo) <;> simp at hgo
  | select d ch =>
      obtain ⟨c, hk⟩ := Option.ne_none_iff_exists'.mp (hw.1 rfl)
      have hgo := h.now (.select .permit) rfl
      simp [next, stepSend, hk, stepAcquire, stepWriter] at hgo
      exact Or.inl ⟨.permit, rfl, by simp [Shared.free, hgo, hs.once rfl]⟩
  | lockDeadline | relockDeadline =>
      obtain ⟨c, hk⟩ := Option.ne_none_iff_exists'.mp (hw.1 rfl)
      have hgo := h.now .go rfl
      simp [next, stepSend, hk, stepAcquire, stepWriter] at hgo
      exact Or.inl ⟨.writeDeadlineMu, rfl, by simp [Shared.free, hgo]⟩
  | readDeadline | setDeadline | clearDeadline =>
      exact absurd h (not_halted_of_writeDeadlineMu hw rfl)
  | won =>
      obtain ⟨c, hk⟩ := Option.ne_none_iff_exists'.mp (hw.1 rfl)
      have hgo := h.now .go rfl
      simp only [next, stepSend, hk, stepAcquire] at hgo
      split at hgo <;> simp at hgo
  | giveBack =>
      obtain ⟨c, hk⟩ := Option.ne_none_iff_exists'.mp (hw.1 rfl)
      have hgo := h.now .go rfl
      simp [next, stepSend, hk, stepAcquire, hs.token rfl] at hgo
  | build =>
      have hgo := h.now .go rfl
      simp [next, stepSend] at hgo
  | write q =>
      have hfail := h.now (.udp .fail) rfl
      simp [next, stepSend] at hfail
  | release e =>
      have hgo := h.now .go rfl
      simp [next, stepSend, hs.token rfl] at hgo
  | blocked q =>
      obtain ⟨c, hk⟩ := Option.ne_none_iff_exists'.mp (hw.1 rfl)
      refine Or.inr ⟨c, ⟨q, k, rfl, hk⟩, deadline_zero_of_writable fun d => ?_⟩
      have hfail := h d (.udp .fail) rfl
      simp only [next, stepSend] at hfail
      split at hfail
      · assumption
      · cases hfail

theorem Halted.of_close {p : ClosePc} {k : CloseCall} (h : Halted s (.close p k)) :
    s.Waits (.close p k) := by
  have hgo := h.now .go rfl
  cases p with
  | enter =>
      simp only [next, stepClose] at hgo
      split at hgo
      · next hmu => exact ⟨.mu, rfl, by simp [Shared.free, hmu]⟩
      · split at hgo <;> cases hgo
  | stopAck =>
      simp [next, stepClose] at hgo
      exact ⟨.ackMu, rfl, by simp [Shared.free, hgo]⟩
  | swap | finish | callback => cases hgo
  | signal todo ids =>
      cases todo with
      | nil => cases hgo
      | cons e todo => cases h.now (.index 0) rfl
  | disc ids =>
      cases ids with
      | nil => cases hgo
      | cons e ids => cases h.now (.index 0) rfl

theorem Halted.of_reader {p : ReaderPc} (h : Halted s (.reader p)) (hs : Sane s (.reader p)) :
    s.Waits (.reader p) := by
  have hgo := h.now .go rfl
  cases p with
  | recv => cases h.now (.recv .timeout) rfl
  | conn r =>
      have hans := hs.answer r
      rw [hgo] at hans
      cases hans
  | ack =>
      unfold next stepReader at hgo
      simp at hgo
      exact ⟨.ackMu, rfl, by simp [Shared.free, hgo]⟩
  | count | overflow => cases hgo
  | top | readErr | parse | disc | lookup | enqueue =>
      unfold next stepReader at hgo
      dsimp only at hgo
      split at hgo <;> cases hgo

theorem Halted.of_dial {p : DialPc} (h : Halted s (.dial p))
    (hfresh : ∃ id, s.table.lookup id = none) : s.Waits (.dial p) := by
  have hgo := h.now .go rfl
  cases p with
  | enter port =>
      unfold next stepDial at hgo
      dsimp only at hgo
      split at hgo
      · next hmu => exact ⟨.mu, rfl, by simp [Shared.free, hmu]⟩
      · split at hgo <;> cases hgo
  | lock port =>
      unfold next stepDial at hgo
      simp at hgo
      exact ⟨.dialMu, rfl, by simp [Shared.free, hgo]⟩
  | recheck port =>
      unfold next stepDial at hgo
      dsimp only at hgo
      split at hgo
      · next hmu => exact ⟨.mu, rfl, by simp [Shared.free, hmu]⟩
      · split at hgo <;> (try split at hgo) <;> cases hgo
  | draw port a =>
      obtain ⟨id, hid⟩ := hfresh
      have hdraw := h.now (.draw id) rfl
      unfold next stepDial at hdraw
      simp [hid] at hdraw
  | install port a id =>
      unfold next stepDial at hgo
      dsimp only at hgo
      split at hgo <;> cases hgo
  | wait port a id c => cases h.now (.select .timeout) rfl
  | report =>
      unfold next stepDial at hgo
      simp at hgo
      exact ⟨.mu, rfl, by simp [Shared.free, hgo]⟩
  | register | dropRealm | dropConnCh | exhausted | ret => cases hgo

/-- **Why a goroutine is stuck**: it waits for a resource that is taken, its UDP write is blocked
without a deadline, or it is a `Read` that waits for data. -/
theorem Halted.reason (h : Halted s pc) (hs : Sane s pc)
    (hfresh : ∃ id, s.table.lookup id = none) (hidle : pc ≠ .idle) :
    s.Waits pc ∨ (∃ c, s.BlockedWrite c pc) ∨ ∃ c n d ch, pc = .read (.select c n d ch) := by
  have hgo := h.now .go rfl
  cases pc with
  | idle => exact absurd rfl hidle
  | send p k =>
      rcases h.of_send hs with hw | hb
      · exact Or.inl hw
      · exact Or.inr (Or.inl hb)
  | signal p c k =>
      obtain ⟨rfl, hmu⟩ := h.of_signal
      exact Or.inl ⟨.writeDeadlineMu, rfl, by simp [Shared.free, hmu]⟩
  | close p k => exact Or.inl h.of_close
  | reader p => exact Or.inl (h.of_reader hs)
  | dial p => exact Or.inl (h.of_dial hfresh)
  | heartbeat p =>
      cases p with
      | loop => cases h.now (.select .tick) rfl
      | begin =>
          simp only [next, stepHeartbeat] at hgo
          split at hgo
          · next hmu => exact Or.inl ⟨.mu, rfl, by simp [Shared.free, hmu]⟩
          · split at hgo <;> cases hgo
      | beat | stalled => cases hgo
  | flush p =>
      cases p with
      | lock =>
          simp [next, stepFlush] at hgo
          exact Or.inl ⟨.ackMu, rfl, by simp [Shared.free, hgo]⟩
      | sent => cases hgo
  | connClose p =>
      cases p with
      | enter | remove => cases hgo
      | check c =>
          simp only [next, stepConnClose] at hgo
          split at hgo
          · next hmu => exact Or.inl ⟨.mu, rfl, by simp [Shared.free, hmu]⟩
          · split at hgo <;> cases hgo
  | write p =>
      cases p with
      | enter c data =>
          simp only [next, stepWrite] at hgo
          split at hgo <;> cases hgo
      | check c data =>
          simp only [next, stepWrite] at hgo
          split at hgo
          · next hmu => exact Or.inl ⟨.mu, rfl, by simp [Shared.free, hmu]⟩
          · split at hgo <;> cases hgo
      | loop c n data => cases data <;> cases hgo
      | ret => cases hgo
  | read p =>
      cases p with
      | select c n d ch => exact Or.inr (Or.inr ⟨c, n, d, ch, rfl⟩)
      | copy => cases hgo
      | drain c n =>
          simp only [next, stepRead] at hgo
          split at hgo <;> cases hgo
      | lock c n =>
          simp only [next, stepRead] at hgo
          split at hgo <;> (try split at hgo) <;> (try split at hgo) <;> cases hgo
  | deadline p =>
      cases p with
      | lock c t =>
          simp [next, stepDeadline] at hgo
          exact Or.inl ⟨.writeDeadlineMu, rfl, by simp [Shared.free, hgo]⟩
      | read => cases hgo
      | update => cases h.now (.udp .ok) rfl

/-- **Why the reader is stuck**: it waits for a resource that is taken.  It draws no realm ID, and
its own UDP writes do not block. -/
theorem Halted.reason_reader (h : Halted s pc) (hs : Sane s pc) (hr : pc.ofReader = true) :
    s.Waits pc := by
  cases pc with
  | send p k =>
      rcases h.of_send hs with hw | ⟨c, ⟨q, j, hpc, hj⟩, _⟩
      · exact hw
      · cases hpc
        cases k with
        | write => cases hr
        | _ => cases hj
  | signal p c k =>
      obtain ⟨rfl, hmu⟩ := h.of_signal
      exact ⟨.writeDeadlineMu, rfl, by simp [Shared.free, hmu]⟩
  | close p k => exact h.of_close
  | reader p => exact h.of_reader hs
  | _ => cases hr

/-- Behind a goroutine that is stuck there is one that can go on or has a blocked write. -/
theorem wait_source (h : system.Reach ok w) (hfresh : ∃ id, w.shared.table.lookup id = none)
    {t : ℕ} (hidle : w.thr t ≠ .idle) (hhalt : Halted w.shared (w.thr t)) :
    (∃ c n d ch, w.thr t = .read (.select c n d ch)) ∨
      ∃ u, Relation.ReflTransGen (waitGraph w).WaitsFor t u ∧ w.thr u ≠ .idle ∧
        (¬ Halted w.shared (w.thr u) ∨ ∃ c, w.shared.BlockedWrite c (w.thr u)) := by
  rcases hhalt.reason (sane h t) hfresh hidle with ⟨r, hr, htaken⟩ | hb | hread
  · have hheld : ∀ r, w.shared.free r = false → ∃ u, (waitGraph w).holds u r :=
      fun r hr => (resource_exclusive h r).exists_holder hr
    obtain ⟨u, q, hchain, hq, hend⟩ := (waitGraph_ordered w).wait_ends hheld hr htaken
    -- the holder of a resource is neither idle nor in a `Read`
    have hq : (w.thr u).holds q = true := hq
    have hne : w.thr u ≠ .idle := by
      intro he
      rw [he] at hq
      cases hq
    refine Or.inr ⟨u, hchain.to_reflTransGen, hne, ?_⟩
    by_cases hu : Halted w.shared (w.thr u)
    · rcases hu.reason (sane h u) hfresh hne with ⟨r', hr', htaken'⟩ | hb | ⟨c, n, d, ch, he⟩
      · exact absurd htaken' (hend r' hr')
      · exact Or.inr hb
      · rw [he] at hq
        cases hq
    · exact Or.inl hu
  · exact Or.inr ⟨t, .refl, hidle, Or.inr hb⟩
  · exact Or.inl hread

/-- **No deadlock.**  In every reachable state in which some realm ID is free, no goroutines wait
for each other in a circle, and behind every goroutine that is stuck and is no `Read` waiting for
data there is one that can go on, or a UDP write that is blocked without a deadline. -/
theorem no_deadlock (h : system.Reachable w) (hfresh : ∃ id, w.shared.table.lookup id = none) :
    (∀ t, ¬ Relation.TransGen (waitGraph w).WaitsFor t t) ∧
    ∀ t, w.thr t ≠ .idle → Halted w.shared (w.thr t) →
      (∃ c n d ch, w.thr t = .read (.select c n d ch)) ∨
      ∃ u, Relation.ReflTransGen (waitGraph w).WaitsFor t u ∧ w.thr u ≠ .idle ∧
        (¬ Halted w.shared (w.thr u) ∨ ∃ c, w.shared.BlockedWrite c (w.thr u)) :=
  ⟨fun t => (waitGraph_ordered w).acyclic t, fun _ => wait_source h hfresh⟩

/-- The reader waits for `ackMu`, which an ACK flush has that waits for the permit of a blocked
write. -/
theorem no_deadlock_ackBehindWrite :
    ∃ w, system.exec (fun _ _ => True) (start 1 newSession)
        (blockedScript ++ receiveScript newHeartbeatBody 2 ++
          acts 4 (.call (.flushACK 0) :: gos 2)) = some w ∧
      w.thr 0 = .reader .ack ∧ Halted w.shared (w.thr 0) ∧
      ∃ u, Relation.ReflTransGen (waitGraph w).WaitsFor 0 u ∧ w.thr u ≠ .idle ∧
        (¬ Halted w.shared (w.thr u) ∨ ∃ c, w.shared.BlockedWrite c (w.thr u)) := by
  have hrun : (system.exec (fun _ _ => True) (start 1 newSession)
      (blockedScript ++ receiveScript newHeartbeatBody 2 ++
        acts 4 (.call (.flushACK 0) :: gos 2))).map (fun w => decide
          (w.thr 0 = .reader .ack ∧ w.shared.locks.ackMu = true ∧
            w.shared.table.lookup 8 = none)) = some true := by
    decide +kernel
  obtain ⟨w, hw, he⟩ := Option.map_eq_some_iff.mp hrun
  obtain ⟨h0, hack, hfresh⟩ := of_decide_eq_true he
  have hhalt : Halted w.shared (w.thr 0) := by
    rw [h0]
    intro d ch _
    cases ch with
    | go =>
        unfold next stepReader
        simp [hack]
    | _ => rfl
  obtain ⟨_, hbehind⟩ := no_deadlock (reach_of_exec (by decide) hw) ⟨8, hfresh⟩
  refine ⟨w, hw, h0, hhalt, ?_⟩
  rcases hbehind 0 (by simp [h0]) hhalt with ⟨c, n, d, ch, hread⟩ | hsource
  · rw [h0] at hread
    cases hread
  · exact hsource

/-! ### The end of a tunnel -/

theorem dispatch_ofReader (b : Body) : (dispatch b).ofReader = true := by
  unfold dispatch
  split <;> (try split) <;> (try split) <;> rfl

theorem Acts.ofReader_stays (h : Acts s pc s' pc') (hdone : s.life.done = s.life.closed)
    (hp : pc.Reasoned s) (hr : pc.ofReader = true) :
    pc'.ofReader = true ∨ s'.life.done = true := by
  rcases h with ⟨rfl, h⟩ | h
  · cases h with
    | sendCheckClosed k | sendCheckExpired k | sendSelectClosed k | sendSelectDone k
    | sendSelectTimeout k =>
        rw [SendCall.ret_ofReader]
        exact Or.inl hr
    | closeAgain k _ hcl => exact Or.inr (hdone.trans hcl)
    | readerDone hd | readerErrDone hd => exact Or.inr hd
    | _ => exact Or.inl hr
  · cases h with
    | sendGiveBack k | sendRelease k =>
        rw [SendCall.ret_ofReader]
        exact Or.inl hr
    | sendWriteOk k | sendWriteFail k | sendBlockedOk k | sendBlockedFail k =>
        rw [SendCall.written_ofReader]
        exact Or.inl hr
    | signalInterrupt c k =>
        rw [SignalCall.ret_ofReader]
        exact Or.inl hr
    | closeCallback k b => exact Or.inr (hdone.trans hp)
    | readerCount q => exact Or.inl (dispatch_ofReader q.body)
    | _ => exact Or.inl hr

theorem Acts.done_mono (h : Acts s pc s' pc') (hd : s.life.done = true) :
    s'.life.done = true := by
  rcases h with ⟨rfl, _⟩ | h
  · exact hd
  · cases h with
    | closeEnter => rfl
    | _ => exact hd

/-- The reader runs until the tunnel is closed. -/
theorem reader_runs (h : system.Reach ok w) :
    (w.thr 0).ofReader = true ∨ w.shared.life.done = true := by
  refine system_invariant (I := fun w => (w.thr 0).ofReader = true ∨ w.shared.life.done = true)
    ?_ ?_ ?_ h
  · intro now session _
    exact Or.inl rfl
  · intro w t ch s pc hr hi _ _ ha
    rcases hi with hreader | hdone
    · by_cases ht : t = 0
      · subst ht
        have hstays := ha.ofReader_stays (done_eq_closed hr) ((reasons hr).thr 0) hreader
        simpa using hstays
      · left
        simpa [Function.update_of_ne (Ne.symm ht)] using hreader
    · exact Or.inr (ha.done_mono hdone)
  · intro w d _ hi
    exact hi

/-- `Close` keeps `mu` until it has closed the socket. -/
theorem mu_or_socketClosed (h : system.Reach ok w) (hcl : w.shared.life.closed = true) :
    w.shared.locks.mu = true ∨ w.shared.life.socketClosed = true := by
  revert hcl
  refine system_invariant (I := fun w => w.shared.life.closed = true →
    w.shared.locks.mu = true ∨ w.shared.life.socketClosed = true) ?_ ?_ ?_ h
  · intro now session _ hcl
    cases hcl
  · intro w t ch s pc _ hi _ _ ha
    rcases ha with ⟨rfl, _⟩ | ha
    · exact hi
    · generalize w.thr t = p at ha
      cases ha with
      | closeEnter => exact fun _ => Or.inl rfl
      | closeFinish => exact fun _ => Or.inr rfl
      | _ => exact hi
  · intro w d _ hi
    exact hi

/-- Nothing is left of the tunnel but calls of `Read` that wait for data. -/
def OnlyReads (w : World Shared Pc) : Prop :=
  ∀ t, w.thr t = .idle ∨ ∃ c n d ch, w.thr t = .read (.select c n d ch)

theorem OnlyReads.holds (h : OnlyReads w) (t : ℕ) (r : Resource) : (w.thr t).holds r = false := by
  rcases h t with he | ⟨c, n, d, ch, he⟩ <;> rw [he] <;> rfl

/-- Then `Close` has closed the socket. -/
theorem OnlyReads.socketClosed (ho : OnlyReads w) (h : system.Reach ok w) :
    w.shared.life.socketClosed = true := by
  have hreader : (w.thr 0).ofReader = false := by
    rcases ho 0 with he | ⟨c, n, d, ch, he⟩ <;> rw [he] <;> rfl
  have hclosed : w.shared.life.closed = true := by
    rcases reader_runs h with hr | hd
    · rw [hreader] at hr
      cases hr
    · exact (done_eq_closed h).symm.trans hd
  rcases mu_or_socketClosed h hclosed with hmu | hsock
  · obtain ⟨t, ht⟩ := (resource_exclusive h .mu).exists_holder (by simp [Shared.free, hmu])
    rw [ho.holds t .mu] at ht
    cases ht
  · exact hsock

/-- Then every `Conn` that was returned is closed, and its `closeCh` too. -/
theorem OnlyReads.closeCh (ho : OnlyReads w) (h : system.Reach OwnDeletes w)
    (hc : w.shared.hist.returned c = true) : (w.shared.table.conns c).closeCh = true := by
  have hnone := realms_none_of_socketClosed h (ho.socketClosed h)
  have hclosed : (w.shared.table.conns c).closed = true := by
    rcases tracked h (Or.inl hc) with hcl | hl | ⟨t, ht⟩
    · exact hcl
    · rw [Table.lookup, hnone] at hl
      cases hl
    · rcases ho t with he | ⟨d, n, dl, ch, he⟩ <;> rw [he] at ht <;> cases ht
  rcases (closeCh_of_closed h).closed c hclosed with hch | ⟨t, ht⟩
  · exact hch
  · rcases ho t with he | ⟨d, n, dl, ch, he⟩ <;> rw [he] at ht <;> cases ht

/-- **A tunnel that stands still is finished.**  In every run in which teardowns keep to their own
realms: if no goroutine can take a step, now or later, then a UDP write is blocked without a
deadline, or the tunnel is closed, its socket too, and every call on it has returned. -/
theorem stuck_finished (h : system.Reach OwnDeletes w)
    (hfresh : ∃ id, w.shared.table.lookup id = none) (hs : Stuck w) :
    (∃ t c, w.shared.BlockedWrite c (w.thr t)) ∨
      w.shared.life.socketClosed = true ∧ ∀ t, w.thr t = .idle := by
  by_cases hb : ∃ t c, w.shared.BlockedWrite c (w.thr t)
  · exact Or.inl hb
  right
  have ho : OnlyReads w := by
    intro t
    by_cases hidle : w.thr t = .idle
    · exact Or.inl hidle
    · rcases wait_source h hfresh hidle (hs t hidle) with hread | ⟨u, _, hu, hmoves | hblocked⟩
      · exact Or.inr hread
      · exact absurd (hs u hu) hmoves
      · exact absurd ⟨u, hblocked⟩ hb
  refine ⟨ho.socketClosed h, fun t => ?_⟩
  rcases ho t with hidle | ⟨c, n, d, ch, he⟩
  · exact hidle
  · -- a `Read` on a closed `Conn` is woken
    have hret : w.shared.Returned c := by
      have hscope := (scope h).thr t
      rw [he] at hscope
      exact hscope
    have hhalt := hs t (by rw [he]; exact nofun)
    rw [he] at hhalt
    have hwake := hhalt.now (.select .closeCh) rfl
    simp [next, stepRead, ho.closeCh h hret.2] at hwake

/-- `Close`, and then the reader and the heartbeat return. -/
theorem stuck_finished_closed :
    ∃ w, system.exec OwnDeletes (start 1 newSession)
        (acts 2 (.call .close :: gos 7) ++ acts 0 [.go] ++ acts 1 [.select .done]) = some w ∧
      Stuck w ∧
      ((∃ t c, w.shared.BlockedWrite c (w.thr t)) ∨
        w.shared.life.socketClosed = true ∧ ∀ t, w.thr t = .idle) := by
  have hrun : (system.exec OwnDeletes (start 1 newSession)
      (acts 2 (.call .close :: gos 7) ++ acts 0 [.go] ++ acts 1 [.select .done])).map
        (fun w => decide (w.thr 0 = .idle ∧ w.thr 1 = .idle ∧ w.thr 2 = .idle ∧
          w.shared.table.lookup 0 = none)) = some true := by
    decide +kernel
  obtain ⟨w, hw, he⟩ := Option.map_eq_some_iff.mp hrun
  obtain ⟨h0, h1, h2, hfresh⟩ := of_decide_eq_true he
  have hstuck : Stuck w := by
    intro t ht
    match t with
    | 0 => exact absurd h0 ht
    | 1 => exact absurd h1 ht
    | 2 => exact absurd h2 ht
    | t + 3 =>
        have hidle : w.thr (t + 3) = .idle :=
          exec_thr (n := 3) (by decide) (Nat.le_add_left 3 t) hw
        exact absurd hidle ht
  exact ⟨w, hw, hstuck, stuck_finished (reach_of_exec (by decide) hw) ⟨0, hfresh⟩ hstuck⟩

end DahuaP2p.Tunnel
