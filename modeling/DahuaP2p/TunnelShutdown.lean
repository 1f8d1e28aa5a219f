import DahuaP2p.TunnelInterrupt
import DahuaP2p.TunnelTracked

/-! # Shutdown

Can `Tunnel.Close` hang?  `Close` wakes every `Conn` before it waits for the send permit, so a
blocked write cannot stop its DISCs.  But `Close` takes `ackMu` before that, and `flushACK` holds
`ackMu` while it waits for the permit.  If the permit is held by a blocked write, nobody moves
(`close_stuck_behind_flush`).  This is the only way to get stuck (`stuck_ackChain`), and it needs
an ACK flush that overlaps a write when the tunnel is closed (`close_not_stuck`). -/

namespace DahuaP2p.Tunnel

open BigEndian Ptcp Threads

variable {s s' : Shared} {pc pc' : Pc} {c : ConnId} {w : World Shared Pc}
  {ok : World Shared Pc → Label Choice Time → Prop}

/-! ### Goroutines that cannot move -/

/-- The choice is made by the kernel. -/
def Choice.ofKernel : Choice → Bool
  | .kernel _ => true
  | _ => false

/-- The goroutine can take no step, now or later, unless another one moves.  That the kernel
completes a blocked write is not counted on. -/
def Halted (s : Shared) (pc : Pc) : Prop :=
  ∀ d ch, ch.ofKernel = false → next { s with now := s.now + d } pc ch = none

/-- No goroutine of the tunnel can take a step. -/
def Stuck (w : World Shared Pc) : Prop := ∀ t, w.thr t ≠ .idle → Halted w.shared (w.thr t)

/-- The goroutine is in a call of `Tunnel.Close`. -/
def Pc.inClose : Pc → Bool
  | .close _ _ => true
  | .signal _ _ k => k.swapped
  | .send _ k => k.swapped
  | _ => false

theorem Halted.now (h : Halted s pc) (ch : Choice) (hk : ch.ofKernel = false) :
    next s pc ch = none :=
  h 0 ch hk

/-- Who has `writeDeadlineMu` can go on. -/
theorem not_halted_of_writeDeadlineMu (hw : pc.WriterOnly)
    (hh : pc.holds .writeDeadlineMu = true) : ¬ Halted s pc := by
  intro h
  cases pc with
  | send p k =>
      cases p with
      | readDeadline =>
          obtain ⟨c, hk⟩ := Option.ne_none_iff_exists'.mp (hw.1 rfl)
          have := h.now .go rfl
          simp [next, stepSend, hk, stepAcquire, stepWriter] at this
      | setDeadline closed d =>
          obtain ⟨c, hk⟩ := Option.ne_none_iff_exists'.mp (hw.1 rfl)
          have := h.now (.udp .ok) rfl
          simp only [next, stepSend, hk, stepAcquire, stepWriter] at this
          split at this <;> (try split at this) <;> simp at this
      | clearDeadline e =>
          obtain ⟨c, hk⟩ := Option.ne_none_iff_exists'.mp (hw.1 rfl)
          have := h.now .go rfl
          simp [next, stepSend, hk, stepAcquire, stepWriter] at this
      | _ => cases k <;> simp [Pc.holds, SendPc.holds, SendCall.holds] at hh
  | signal p c k =>
      cases p with
      | interrupt =>
          have := h.now .go rfl
          simp [next, stepSignal] at this
      | _ => cases k <;> simp [Pc.holds, SignalPc.holds, SignalCall.holds] at hh
  | deadline p =>
      cases p with
      | lock => cases hh
      | read c t =>
          have := h.now .go rfl
          simp [next, stepDeadline] at this
      | update c t closed =>
          have := h.now (.udp .ok) rfl
          simp [next, stepDeadline] at this
  | close p k => cases p <;> cases hh
  | flush p => cases p <;> cases hh
  | dial p => cases p <;> cases hh
  | _ => cases hh

/-- The write of a `Conn` that waits for the socket, with no deadline set. -/
def Shared.BlockedWrite (s : Shared) (c : ConnId) (pc : Pc) : Prop :=
  (∃ q k, pc = .send (.blocked q) k ∧ k.writer = some c) ∧ s.life.socketClosed = false ∧
    s.sock.writeDeadline = 0

/-- A socket that stays writable is open and has no write deadline. -/
theorem deadline_zero_of_writable
    (h : ∀ d, ({ s with now := s.now + d } : Shared).Writable) :
    s.life.socketClosed = false ∧ s.sock.writeDeadline = 0 := by
  refine ⟨(h 0).1, ?_⟩
  by_contra hne
  exact (h s.sock.writeDeadline).2 ⟨hne, Nat.le_add_left _ _⟩

/-- Who has the permit waits for `writeDeadlineMu`, or is a blocked write. -/
theorem Halted.of_permit (h : Halted s pc) (hw : pc.WriterOnly) (hh : pc.holds .permit = true)
    (htok : s.permit.token = false) :
    s.locks.writeDeadlineMu = true ∨ ∃ c, s.BlockedWrite c pc := by
  cases pc with
  | send p k =>
      cases p with
      | enter | await | check | select => cases k <;> cases hh
      | won =>
          obtain ⟨c, hk⟩ := Option.ne_none_iff_exists'.mp (hw.1 rfl)
          have := h.now .go rfl
          simp only [next, stepSend, hk, stepAcquire] at this
          split at this <;> simp at this
      | giveBack =>
          obtain ⟨c, hk⟩ := Option.ne_none_iff_exists'.mp (hw.1 rfl)
          have := h.now .go rfl
          simp [next, stepSend, hk, stepAcquire, htok] at this
      | lockDeadline | relockDeadline =>
          obtain ⟨c, hk⟩ := Option.ne_none_iff_exists'.mp (hw.1 rfl)
          have := h.now .go rfl
          simp [next, stepSend, hk, stepAcquire, stepWriter] at this
          exact Or.inl this
      | readDeadline | setDeadline | clearDeadline =>
          exact absurd h (not_halted_of_writeDeadlineMu hw rfl)
      | build =>
          have := h.now .go rfl
          simp [next, stepSend] at this
      | write q =>
          have := h.now (.udp .fail) rfl
          simp [next, stepSend] at this
      | release e =>
          have := h.now .go rfl
          simp [next, stepSend, htok] at this
      | blocked q =>
          obtain ⟨c, hk⟩ := Option.ne_none_iff_exists'.mp (hw.1 rfl)
          refine Or.inr ⟨c, ⟨q, k, rfl, hk⟩, deadline_zero_of_writable fun d => ?_⟩
          have := h d (.udp .fail) rfl
          simp only [next, stepSend] at this
          split at this
          · assumption
          · cases this
  | signal p c k => cases p <;> cases k <;> cases hh
  | close p k => cases p <;> cases hh
  | flush p => cases p <;> cases hh
  | dial p => cases p <;> cases hh
  | deadline p => cases p <;> cases hh
  | _ => cases hh

/-- A sender that is no writer waits for the permit. -/
theorem Halted.of_control {p : SendPc} {k : SendCall} (h : Halted s (.send p k))
    (hw : (Pc.send p k).WriterOnly) (hk : k.writer = none)
    (htok : p.holds .permit = true → s.permit.token = false) :
    p = .await ∧ s.permit.token = false := by
  cases p with
  | enter =>
      have := h.now .go rfl
      simp [next, stepSend, hk] at this
  | await =>
      have := h.now .go rfl
      simp [next, stepSend] at this
      exact ⟨rfl, this⟩
  | build =>
      have := h.now .go rfl
      simp [next, stepSend] at this
  | write q =>
      have := h.now (.udp .fail) rfl
      simp [next, stepSend] at this
  | release e =>
      have := h.now .go rfl
      simp [next, stepSend, htok rfl] at this
  | _ => exact absurd hk (hw.1 rfl)

/-- Who runs `signalClosed` waits for `writeDeadlineMu`. -/
theorem Halted.of_signal {p : SignalPc} {k : SignalCall} (h : Halted s (.signal p c k)) :
    p = .lockDeadline ∧ s.locks.writeDeadlineMu = true := by
  have := h.now .go rfl
  cases p with
  | setClosed => simp [next, stepSignal] at this
  | closeOnce =>
      simp only [next, stepSignal] at this
      split at this <;> simp at this
  | lockDeadline =>
      simp [next, stepSignal] at this
      exact ⟨rfl, this⟩
  | interrupt => simp [next, stepSignal] at this

/-- Who has `ackMu` waits for the permit. -/
theorem Halted.of_ackMu (h : Halted s pc) (hw : pc.WriterOnly) (hh : pc.holds .ackMu = true)
    (htok : pc.holds .permit = true → s.permit.token = false) :
    pc = .send .await .flush ∧ s.permit.token = false := by
  cases pc with
  | send p k =>
      cases k with
      | flush =>
          obtain ⟨rfl, ht⟩ := h.of_control hw rfl fun hp => htok (by simp [Pc.holds, hp])
          exact ⟨rfl, ht⟩
      | _ => cases p <;> cases hh
  | flush p =>
      cases p with
      | lock => cases hh
      | sent e =>
          have := h.now .go rfl
          simp [next, stepFlush] at this
  | signal p c k => cases p <;> cases k <;> cases hh
  | close p k => cases p <;> cases hh
  | dial p => cases p <;> cases hh
  | deadline p => cases p <;> cases hh
  | _ => cases hh

/-- Who has `mu`, the goroutine in `Close`, waits for `ackMu`, `writeDeadlineMu` or the permit. -/
theorem Halted.of_mu (h : Halted s pc) (hw : pc.WriterOnly) (hh : pc.holds .mu = true)
    (htok : pc.holds .permit = true → s.permit.token = false) :
    (∃ k, pc = .close .stopAck k) ∧ s.locks.ackMu = true ∨ s.locks.writeDeadlineMu = true ∨
      (∃ k, pc = .send .await k ∧ k.swapped = true) ∧ s.permit.token = false := by
  cases pc with
  | send p k =>
      cases k with
      | closeDisc id c rest k =>
          obtain ⟨rfl, ht⟩ := h.of_control hw rfl fun hp => htok (by simp [Pc.holds, hp])
          exact Or.inr (Or.inr ⟨⟨_, rfl, rfl⟩, ht⟩)
      | _ => cases p <;> cases hh
  | signal p c k => exact Or.inr (Or.inl h.of_signal.2)
  | close p k =>
      have hgo := h.now .go rfl
      cases p with
      | enter | callback => cases hh
      | stopAck =>
          simp [next, stepClose] at hgo
          exact Or.inl ⟨⟨k, rfl⟩, hgo⟩
      | swap | finish => simp [next, stepClose] at hgo
      | signal todo ids =>
          cases todo with
          | nil => simp [next, stepClose] at hgo
          | cons e todo =>
              have := h.now (.index 0) rfl
              simp [next, stepClose] at this
      | disc ids =>
          cases ids with
          | nil => simp [next, stepClose] at hgo
          | cons e ids =>
              have := h.now (.index 0) rfl
              simp [next, stepClose] at this
  | flush p => cases p <;> cases hh
  | dial p => cases p <;> cases hh
  | deadline p => cases p <;> cases hh
  | _ => cases hh

/-! ### The only way to get stuck -/

/-- `Close` waits for `ackMu`, the ACK flush that has it waits for the permit, and the write that
has the permit is blocked without a deadline. -/
def AckChain (w : World Shared Pc) : Prop :=
  ∃ t₁ t₂ t₃ k c, w.thr t₁ = .close .stopAck k ∧ w.thr t₂ = .send .await .flush ∧
    w.shared.BlockedWrite c (w.thr t₃)

theorem Stuck.halted {t : ℕ} {r : Resource} (hs : Stuck w) (ht : (w.thr t).holds r = true) :
    Halted w.shared (w.thr t) := by
  refine hs t fun hidle => ?_
  rw [hidle] at ht
  cases ht

/-- In a stuck state nobody has `writeDeadlineMu`. -/
theorem Stuck.writeDeadlineMu_free (h : system.Reach ok w) (hs : Stuck w) :
    w.shared.locks.writeDeadlineMu = false := by
  refine Bool.eq_false_iff.mpr fun htaken => ?_
  have hfree : w.shared.free .writeDeadlineMu = false := by simp [Shared.free, htaken]
  obtain ⟨t, ht⟩ := (resource_exclusive h .writeDeadlineMu).exists_holder hfree
  exact not_halted_of_writeDeadlineMu (writerOnly h t) ht (hs.halted ht)

theorem token_of_holds (h : system.Reach ok w) {t : ℕ} (ht : (w.thr t).holds .permit = true) :
    w.shared.permit.token = false := by
  have hfree := (resource_exclusive h .permit).not_free ht
  simp only [Shared.free, Bool.or_eq_false_iff] at hfree
  exact hfree.1

/-- In a stuck state in which somebody waits for the permit, a blocked write has it. -/
theorem Stuck.blockedWrite {t : ℕ} {k : SendCall} (h : system.Reach ok w) (hs : Stuck w)
    (ht : w.thr t = .send .await k) (htok : w.shared.permit.token = false) :
    ∃ u c, w.shared.BlockedWrite c (w.thr u) := by
  have honce := once_of_pastOnce h t (by rw [ht]; rfl)
  have hfree : w.shared.free .permit = false := by simp [Shared.free, htok, honce]
  obtain ⟨u, hu⟩ := (resource_exclusive h .permit).exists_holder hfree
  rcases (hs.halted hu).of_permit (writerOnly h u) hu htok with hmu | ⟨c, hb⟩
  · rw [hs.writeDeadlineMu_free h] at hmu
    cases hmu
  · exact ⟨u, c, hb⟩

/-- What is to be closed is so by `Close`, or by a `signalClosed` that can go on. -/
theorem Pc.toClose_cases (hc : c ∈ pc.toClose) :
    pc.holds .mu = true ∧ (∀ k, pc ≠ .send .await k) ∨ ∃ k, pc = .signal .setClosed c k := by
  cases pc with
  | close p k =>
      cases p with
      | signal => exact Or.inl ⟨rfl, nofun⟩
      | _ => cases hc
  | signal p d k =>
      cases k with
      | close => cases p <;> exact Or.inl ⟨rfl, nofun⟩
      | _ =>
          cases p with
          | setClosed =>
              obtain rfl := List.mem_singleton.mp hc
              exact Or.inr ⟨_, rfl⟩
          | _ => cases hc
  | _ => cases hc

/-- `Close` does not wait for the permit of a blocked write: it has woken every writer. -/
theorem Stuck.not_await {t u : ℕ} {k : SendCall} (h : system.Reach OwnDeletes w) (hs : Stuck w)
    (ht : w.thr t = .send .await k) (hk : k.swapped = true)
    (hb : w.shared.BlockedWrite c (w.thr u)) : False := by
  obtain ⟨⟨q, j, hu, hj⟩, _, hzero⟩ := hb
  have hmu := hs.writeDeadlineMu_free h
  have hret : w.shared.Returned c := by
    have hsc := (scope h).thr u
    rw [hu] at hsc
    cases j with
    | write id d n chunk rest =>
        cases hj
        exact hsc.2
    | _ => cases hj
  have hsignal : ∀ v p k, w.thr v ≠ .signal p c k := by
    intro v p k hv
    have hhalt := hs v (by rw [hv]; exact nofun)
    rw [hv] at hhalt
    rw [hhalt.of_signal.2] at hmu
    cases hmu
  have hclosed : (w.shared.table.conns c).closed = true := by
    rcases tracked h (Or.inl hret.2) with hcl | hl | ⟨v, hv⟩
    · exact hcl
    · have hnone := realms_none_of_swapped h (t := t) (by rw [ht]; exact hk)
      rw [Table.lookup, hnone] at hl
      cases hl
    · rcases Pc.toClose_cases hv with ⟨hvmu, hne⟩ | ⟨k', hk'⟩
      · have htmu : (w.thr t).holds .mu = true := by
          rw [ht]
          cases k with
          | closeDisc => rfl
          | _ => cases hk
        obtain rfl := (resource_exclusive h .mu).unique htmu hvmu
        exact absurd ht (hne k)
      · exact absurd hk' (hsignal v _ k')
  have hactive := active_writer h (t := u) (c := c) (by rw [hu]; exact hj)
  rcases (interrupted h).active c hactive hclosed with he | ⟨v, hv⟩
  · exact he.1 hzero
  · cases hpc : w.thr v with
    | signal p d k' =>
        rw [hpc] at hv
        cases hv
        exact hsignal v p k' hpc
    | _ =>
        rw [hpc] at hv
        cases hv

/-- The goroutine in `Close` that has `mu`. -/
theorem Stuck.exists_mu {t : ℕ} (h : system.Reach ok w) (hs : Stuck w)
    (ht : (w.thr t).inClose = true) : ∃ u, (w.thr u).holds .mu = true := by
  cases hpc : w.thr t with
  | close p k =>
      cases p with
      | enter =>
          have hgo := (hs t (by simp [hpc])).now .go rfl
          rw [hpc] at hgo
          simp only [next, stepClose] at hgo
          split at hgo
          · next hmu =>
              exact (resource_exclusive h .mu).exists_holder (by simp [Shared.free, hmu])
          · split at hgo <;> cases hgo
      | callback b =>
          have hgo := (hs t (by simp [hpc])).now .go rfl
          rw [hpc] at hgo
          cases hgo
      | _ => exact ⟨t, by rw [hpc]; rfl⟩
  | signal p c k =>
      rw [hpc] at ht
      cases k with
      | close => exact ⟨t, by rw [hpc]; cases p <;> rfl⟩
      | _ => cases ht
  | send p k =>
      rw [hpc] at ht
      cases k with
      | closeDisc => exact ⟨t, by rw [hpc]; simp [Pc.holds, SendCall.holds]⟩
      | _ => cases ht
  | _ =>
      rw [hpc] at ht
      cases ht

/-- **The only way to get stuck** while `Close` runs is behind an ACK flush that waits for a
blocked write. -/
theorem stuck_ackChain (h : system.Reach OwnDeletes w) (hs : Stuck w) {t : ℕ}
    (ht : (w.thr t).inClose = true) : AckChain w := by
  obtain ⟨u, hu⟩ := hs.exists_mu h ht
  rcases (hs.halted hu).of_mu (writerOnly h u) hu (token_of_holds h) with
    ⟨⟨k, hk⟩, hack⟩ | hmu | ⟨⟨k, hk, hswap⟩, htok⟩
  · have hfree : w.shared.free .ackMu = false := by simp [Shared.free, hack]
    obtain ⟨v, hv⟩ := (resource_exclusive h .ackMu).exists_holder hfree
    obtain ⟨hflush, htok⟩ := (hs.halted hv).of_ackMu (writerOnly h v) hv (token_of_holds h)
    obtain ⟨x, c, hb⟩ := hs.blockedWrite h hflush htok
    exact ⟨u, v, x, k, c, hk, hflush, hb⟩
  · rw [hs.writeDeadlineMu_free h] at hmu
    cases hmu
  · obtain ⟨x, c, hb⟩ := hs.blockedWrite h hk htok
    exact (hs.not_await h hk hswap hb).elim

/-! ### Runs in which ACK flushes keep clear of writes -/

def SendPc.writing : SendPc → Bool
  | lockDeadline => true
  | readDeadline => true
  | setDeadline _ _ => true
  | build => true
  | write _ => true
  | blocked _ => true
  | _ => false

/-- The goroutine writes for a `Conn`: from its look at `done` to the end of the UDP write. -/
def Pc.writing : Pc → Bool
  | .send p k => p.writing && k.writer.isSome
  | _ => false

/-- `Close` does not begin while an ACK flush and a write are under way, and on a closed tunnel no
ACK flush takes `ackMu` while a write is under way. -/
def AcksClear (w : World Shared Pc) : Label Choice Time → Prop
  | .thread t _ => match w.thr t with
    | .close .enter _ => w.shared.life.closed = true ∨ w.shared.locks.ackMu = false ∨
        ∀ u, (w.thr u).writing = false
    | .flush .lock => w.shared.life.closed = false ∨ ∀ u, (w.thr u).writing = false
    | _ => True
  | .env _ => True

@[simp] theorem Resumes.writing (h : Resumes pc) : pc.writing = false := by
  cases h <;> rfl

@[simp] theorem SendCall.written_writing (k : SendCall) (e : Option SendError) :
    (k.written e).writing = false := by
  rcases k.written_cases e with ⟨_, _, h⟩ | ⟨_, h⟩ <;> rw [h] <;> rfl

/-- No write begins once `done` is closed. -/
theorem Acts.writing (h : Acts s pc s' pc') (hw : pc.WriterOnly) (hp : pc'.writing = true) :
    pc.writing = true ∨ s.life.done = false := by
  rcases h with ⟨rfl, h⟩ | h
  · cases h with
    | sendWon k c _ hd => exact Or.inr hd
    | sendReadDeadline => exact Or.inl hp
    | sendCheckClosed | sendCheckExpired | sendSelectClosed | sendSelectDone | sendSelectTimeout
    | closeAgain => simp at hp
    | _ => cases hp
  · cases h with
    | sendTake k =>
        simp [Pc.writing, SendPc.writing, hw.2 rfl] at hp
    | sendLockDeadline | sendSetDeadline | sendBuild | sendWriteBlock => exact Or.inl hp
    | sendGiveBack | sendRelease | signalInterrupt | closeCallback | readerCount => simp at hp
    | sendWriteOk | sendWriteFail | sendBlockedOk | sendBlockedFail =>
        rw [SendCall.written_writing] at hp
        cases hp
    | _ => cases hp

/-- `ackMu` is taken across a wait by `flushACK` only. -/
theorem Acts.ackMu (h : Acts s pc s' pc') (ha : s'.locks.ackMu = true) :
    s.locks.ackMu = true ∨ pc = .flush .lock ∧ pc' = .send .enter .flush := by
  rcases h with ⟨rfl, _⟩ | h
  · exact Or.inl ha
  · cases h with
    | flushLock => exact Or.inr ⟨rfl, rfl⟩
    | flushSent | flushClose => cases ha
    | _ => exact Or.inl ha

/-- `Close` is about to stop the ACK timer. -/
def Pc.stopsAck : Pc → Bool
  | .close .stopAck _ => true
  | _ => false

@[simp] theorem Resumes.stopsAck (h : Resumes pc) : pc.stopsAck = false := by
  cases h <;> rfl

@[simp] theorem SendCall.written_stopsAck (k : SendCall) (e : Option SendError) :
    (k.written e).stopsAck = false := by
  rcases k.written_cases e with ⟨_, _, h⟩ | ⟨_, h⟩ <;> rw [h] <;> rfl

/-- `Close` gets there by closing the tunnel. -/
theorem Acts.stopsAck (h : Acts s pc s' pc') (hp : pc'.stopsAck = true) :
    (∃ k, pc = .close .enter k) ∧ s.life.closed = false ∧ s'.locks.ackMu = s.locks.ackMu := by
  rcases h with ⟨rfl, h⟩ | h
  · cases h with
    | sendCheckClosed | sendCheckExpired | sendSelectClosed | sendSelectDone | sendSelectTimeout
    | closeAgain => simp at hp
    | _ => cases hp
  · cases h with
    | closeEnter k _ hopen => exact ⟨⟨k, rfl⟩, hopen, rfl⟩
    | sendGiveBack | sendRelease | signalInterrupt | closeCallback | readerCount => simp at hp
    | sendWriteOk | sendWriteFail | sendBlockedOk | sendBlockedFail =>
        rw [SendCall.written_stopsAck] at hp
        cases hp
    | _ => cases hp

theorem Pc.Reasoned.of_stopsAck (h : pc.Reasoned s) (hp : pc.stopsAck = true) :
    s.life.closed = true := by
  cases pc with
  | close p k =>
      cases p with
      | stopAck => exact h
      | _ => cases hp
  | _ => cases hp

/-- In such runs no write is under way while `Close` waits for an ACK flush. -/
theorem not_writing_of_stopsAck (h : system.Reach AcksClear w) {t : ℕ}
    (ht : (w.thr t).stopsAck = true) (hack : w.shared.locks.ackMu = true) (u : ℕ) :
    (w.thr u).writing = false := by
  revert t u
  refine system_invariant (I := fun w => w.shared.locks.ackMu = true → ∀ {t},
    (w.thr t).stopsAck = true → ∀ u, (w.thr u).writing = false) ?_ ?_ ?_ h hack
  · intro now session _ hack
    cases hack
  · intro w v ch s pc hr hi hok hn ha hack t ht
    have hothers : (∀ u, (w.thr u).writing = false) → (pc.writing = true → False) →
        ∀ u, (Function.update w.thr v pc u).writing = false := fun hall hpc =>
      forall_update (P := fun _ (p : Pc) => p.writing = false)
        (Bool.eq_false_iff.mpr hpc) fun u _ => hall u
    by_cases htv : t = v
    · subst htv
      have hpc : pc.stopsAck = true := by simpa using ht
      obtain ⟨⟨k, hk⟩, hopen, hsame⟩ := ha.stopsAck hpc
      simp only [AcksClear, hk] at hok
      rcases hok with hcl | hfree | hall
      · rw [hopen] at hcl
        cases hcl
      · rw [← hsame] at hfree
        rw [hack] at hfree
        cases hfree
      · refine hothers hall fun hw => ?_
        cases pc <;> first | cases hpc | cases hw
    · have ht : (w.thr t).stopsAck = true := by simpa [htv] using ht
      have hclosed := ((reasons hr).thr t).of_stopsAck ht
      rcases ha.ackMu hack with hold | ⟨hlock, hpc⟩
      · have hall := hi hold ht
        refine hothers hall fun hw => ?_
        rcases ha.writing (writerOnly hr v) hw with hwas | hdone
        · rw [hall v] at hwas
          cases hwas
        · rw [done_eq_closed hr, hclosed] at hdone
          cases hdone
      · simp only [AcksClear, hlock] at hok
        rcases hok with hopen | hall
        · rw [hclosed] at hopen
          cases hopen
        · exact hothers hall fun hw => by
            rw [hpc] at hw
            cases hw
  · intro w d _ hi
    exact hi

/-- **`Close` does not hang.**  In every run in which teardowns keep to their own realms, `Close`
does not begin while an ACK flush and a write are under way, and no ACK flush takes `ackMu` on a
closed tunnel while a write is under way, there is no state in which a `Tunnel.Close` has started
and not returned and no goroutine can take a step. -/
theorem close_not_stuck (h : system.Reach (fun w l => OwnDeletes w l ∧ AcksClear w l) w) {t : ℕ}
    (ht : (w.thr t).inClose = true) : ¬ Stuck w := by
  intro hs
  have hown : system.Reach OwnDeletes w := h.mono fun _ _ _ _ hok _ => hok.1
  have hclear : system.Reach AcksClear w := h.mono fun _ _ _ _ hok _ => hok.2
  obtain ⟨t₁, t₂, t₃, k, c, h₁, h₂, ⟨q, j, h₃, hj⟩, _⟩ := stuck_ackChain hown hs ht
  have hack : w.shared.locks.ackMu = true := by
    have hfree := (resource_exclusive h .ackMu).not_free (t := t₂) (by rw [h₂]; rfl)
    simpa [Shared.free] using hfree
  have hno := not_writing_of_stopsAck hclear (t := t₁) (by rw [h₁]; rfl) hack t₃
  rw [h₃] at hno
  simp [Pc.writing, SendPc.writing, hj] at hno

/-! ### Runs -/

/-- No ACK flush runs. -/
def NoFlush (w : World Shared Pc) : Label Choice Time → Prop
  | .thread t _ => w.shared.locks.ackMu = false ∧ w.thr t ≠ .flush .lock
  | .env _ => True

instance (w : World Shared Pc) : ∀ l, Decidable (NoFlush w l)
  | .thread t _ =>
      inferInstanceAs (Decidable (w.shared.locks.ackMu = false ∧ w.thr t ≠ .flush .lock))
  | .env _ => .isTrue trivial

theorem NoFlush.acksClear {l : Label Choice Time} (h : NoFlush w l) : AcksClear w l := by
  cases l with
  | env d => trivial
  | thread t ch =>
      unfold AcksClear
      dsimp only
      split
      · exact Or.inr (Or.inl h.1)
      · next hpc => exact absurd hpc h.2
      · trivial

/-- `Close` up to its wait for the permit that the blocked write has: the write was woken. -/
theorem close_not_stuck_blockedScript :
    ∃ w, system.exec (fun w l => OwnDeletes w l ∧ NoFlush w l) (start 1 newSession)
        (blockedScript ++ acts 4 ([.call .close] ++ gos 3 ++ [.index 0] ++ gos 5 ++
          [.index 0, .go])) = some w ∧
      w.thr 4 = .send .await (.closeDisc 7 0 [] .user) ∧ ¬ Stuck w := by
  have hrun : (system.exec (fun w l => OwnDeletes w l ∧ NoFlush w l) (start 1 newSession)
      (blockedScript ++ acts 4 ([.call .close] ++ gos 3 ++ [.index 0] ++ gos 5 ++
        [.index 0, .go]))).map (fun w => w.thr 4) =
        some (.send .await (.closeDisc 7 0 [] .user)) := by
    decide +kernel
  obtain ⟨w, hw, he⟩ := Option.map_eq_some_iff.mp hrun
  have hr : system.Reach (fun w l => OwnDeletes w l ∧ AcksClear w l) w :=
    (reach_of_exec (by decide) hw).mono fun _ _ _ _ hok _ => ⟨hok.1, hok.2.acksClear⟩
  exact ⟨w, hw, he, close_not_stuck hr (t := 4) (by rw [he]; rfl)⟩

theorem halted_await {k : SendCall} (htok : s.permit.token = false) :
    Halted s (.send .await k) := by
  intro d ch _
  cases ch with
  | go => simp [next, stepSend, htok]
  | _ => cases k <;> rfl

theorem halted_stopAck {k : CloseCall} (hack : s.locks.ackMu = true) :
    Halted s (.close .stopAck k) := by
  intro d ch _
  cases ch with
  | go => simp [next, stepClose, hack]
  | _ => rfl

theorem Shared.BlockedWrite.halted (h : s.BlockedWrite c pc) : Halted s pc := by
  obtain ⟨⟨q, k, rfl, hk⟩, hopen, hzero⟩ := h
  intro d ch hch
  cases ch with
  | kernel b => cases hch
  | udp r =>
      cases r with
      | fail => simp [next, stepSend, Shared.Writable, Expired, hopen, hzero]
      | _ => simp [next, stepSend, hk, stepAcquire, stepWriter]
  | _ => simp [next, stepSend, hk, stepAcquire, stepWriter]

/-- A write is blocked in the socket, the ACK timer fires and `flushACK` waits for the permit, and
then the tunnel is closed: `Close` waits for `ackMu`, and the reader and the heartbeat have
returned.  No goroutine can take a step. -/
theorem close_stuck_behind_flush :
    ∃ w, system.Reachable w ∧ (∃ t, (w.thr t).inClose = true) ∧ Stuck w := by
  have hrun : (system.exec (fun _ _ => True) (start 1 newSession) (blockedScript ++
      acts 4 (.call (.flushACK 0) :: gos 2) ++ acts 5 [.call .close, .go] ++ acts 0 [.go] ++
      acts 1 [.select .done])).map (fun w => decide
        ((w.thr 0 = .idle ∧ w.thr 1 = .idle ∧ w.thr 2 = .idle ∧
          w.thr 3 = .send (.blocked ⟨⟨20, 16, 0xFFFE, 1, 0⟩, newPayloadBody 7 [1]⟩)
            (.write 7 0 0 [1] []) ∧
          w.thr 4 = .send .await .flush ∧ w.thr 5 = .close .stopAck .user) ∧
        w.shared.permit.token = false ∧ w.shared.locks.ackMu = true ∧
        w.shared.life.socketClosed = false ∧ w.shared.sock.writeDeadline = 0)) = some true := by
    decide +kernel
  obtain ⟨w, hw, he⟩ := Option.map_eq_some_iff.mp hrun
  obtain ⟨⟨t₀, t₁, t₂, t₃, t₄, t₅⟩, htok, hack, hopen, hzero⟩ := of_decide_eq_true he
  refine ⟨w, reach_of_exec (by decide) hw, ⟨5, by rw [t₅]; rfl⟩, fun t ht => ?_⟩
  match t with
  | 0 => exact absurd t₀ ht
  | 1 => exact absurd t₁ ht
  | 2 => exact absurd t₂ ht
  | 3 => exact Shared.BlockedWrite.halted ⟨⟨_, _, t₃, rfl⟩, hopen, hzero⟩
  | 4 =>
      rw [t₄]
      exact halted_await htok
  | 5 =>
      rw [t₅]
      exact halted_stopAck hack
  | t + 6 =>
      have hidle : w.thr (t + 6) = .idle :=
        exec_thr (n := 6) (by decide +kernel) (Nat.le_add_left 6 t) hw
      exact absurd hidle ht

end DahuaP2p.Tunnel
