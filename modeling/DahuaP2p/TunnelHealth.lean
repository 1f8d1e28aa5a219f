import DahuaP2p.TunnelScope

/-! # Why a tunnel closes itself

A tunnel watches its link with four counters: failed reads in a row (`reader`), heartbeats without
an answer (`sendHeartbeat`), failed ACKs in a row (`flushACK`) and BINDs that were not granted
(`Dial`).  They are changed by different goroutines, some of them under a mutex of their own.

`healthNote` logs what the counters are about.  Each counter has the number of hits in that log
since the last reset.  So the tunnel closes itself only after enough of them, or when the device has
stalled, and whenever there are enough of them it does (`self_close_cause`). -/

namespace DahuaP2p.Tunnel

open BigEndian Ptcp Threads

/-! ### Events -/

/-- What the health of a tunnel depends on. -/
inductive HealthEvent where
  /-- `ReadRaw` failed, and not by a timeout. -/
  | readFailed
  | received
  /-- A datagram was parsed: any packet answers the heartbeats before it. -/
  | answered
  | beat
  /-- `outboundStalled` has returned true. -/
  | stalled
  | acked (ok : Bool)
  /-- A `Dial` used up its BIND attempts. -/
  | exhausted
  | granted
  /-- A `Tunnel.Close` has found the tunnel open. -/
  | closed (k : CloseCall)
deriving DecidableEq, Repr

/-- The event that an action is. -/
def healthEvent (s : Shared) (pc pc' : Pc) : Option HealthEvent :=
  match pc with
  | .reader .readErr => if s.life.done then none else some .readFailed
  | .reader .recv => match pc' with
    | .reader (.parse _) => some .received
    | _ => none
  | .reader (.parse _) => match pc' with
    | .reader (.count _) => some .answered
    | _ => none
  | .heartbeat .beat => some .beat
  | .heartbeat .stalled => match pc' with
    | .close _ _ => some .stalled
    | _ => none
  | .flush (.sent e) => some (.acked e.isNone)
  | .dial .exhausted => some .exhausted
  | .dial (.wait _ _ _ _) => match pc' with
    | .dial (.ret _) => some .granted
    | _ => none
  | .close .enter k => if s.life.closed then none else some (.closed k)
  | _ => none

def healthNote (log : List HealthEvent) (_ : ℕ) (s : Shared) (pc : Pc) (_ : Shared) (pc' : Pc) :
    List HealthEvent :=
  log ++ (healthEvent s pc pc').toList

/-- The tunnel with a log of these events. -/
def healthSystem : System (World Shared Pc × List HealthEvent) (Label Choice Time) :=
  recorded healthNote []

/-! ### Counters -/

/-- The four counters. -/
inductive Monitor where
  | reads
  | beats
  | acks
  | binds
deriving DecidableEq, Repr

namespace Monitor

def counter (s : Shared) : Monitor → ℕ
  | reads => s.health.consecutiveReadErrs
  | beats => s.health.missedHeartbeats
  | acks => s.acks.consecutiveSendErrs
  | binds => s.health.bindFailures

def resets : Monitor → HealthEvent → Bool
  | reads, .received => true
  | beats, .answered => true
  | acks, .acked true => true
  | binds, .granted => true
  | _, _ => false

def hits : Monitor → HealthEvent → Bool
  | reads, .readFailed => true
  | beats, .beat => true
  | acks, .acked false => true
  | binds, .exhausted => true
  | _, _ => false

/-- The hits since the last reset. -/
def since (m : Monitor) (log : List HealthEvent) : ℕ := hitsSince m.resets m.hits log

/-- A counter after one more event. -/
def count (m : Monitor) (n : ℕ) : Option HealthEvent → ℕ
  | none => n
  | some e => if m.resets e then 0 else n + if m.hits e then 1 else 0

theorem since_note (m : Monitor) (log : List HealthEvent) (e : Option HealthEvent) :
    m.since (log ++ e.toList) = m.count (m.since log) e := by
  cases e with
  | none => simp [count]
  | some e => exact hitsSince_concat ..

end Monitor

variable {s s' : Shared} {pc pc' : Pc} {w : World Shared Pc} {log : List HealthEvent}
  {ok : World Shared Pc → Label Choice Time → Prop}

theorem Acks.schedule_consecutiveSendErrs (a : Acks) :
    a.schedule.consecutiveSendErrs = a.consecutiveSendErrs := by
  unfold Acks.schedule
  split <;> rfl

/-- The stall detector leaves the counters alone. -/
theorem Monitor.counter_outboundStalled (m : Monitor) (s : Shared) (st : Stats) (now : Time) :
    m.counter { s with health := (s.health.outboundStalled st now).1 } = m.counter s := by
  unfold Health.outboundStalled
  split <;> (try split) <;> (try split) <;> cases m <;> rfl

/-- Every action changes the counters as its event says. -/
theorem Acts.counter (h : Acts s pc s' pc') (m : Monitor) :
    m.counter s' = m.count (m.counter s) (healthEvent s pc pc') := by
  rcases h with ⟨rfl, h⟩ | h
  · cases h with
    | readerErrDone hd => simp [healthEvent, hd, Monitor.count]
    | closeAgain k _ hcl => simp [healthEvent, hcl, Monitor.count]
    | _ => rfl
  · cases h with
    | readerErr hd | readerErrClose hd =>
        cases m <;> simp [healthEvent, hd, Monitor.count, Monitor.counter, Monitor.resets,
          Monitor.hits]
    | closeEnter k _ hcl =>
        cases m <;> simp [healthEvent, hcl, Monitor.count, Monitor.counter, Monitor.resets,
          Monitor.hits]
    | flushSent e => cases m <;> cases e <;> rfl
    | readerAck =>
        cases m with
        | acks => exact s.acks.schedule_consecutiveSendErrs
        | _ => rfl
    | heartbeatDrains h hst =>
        rw [← m.counter_outboundStalled s s.session.stats s.now, hst]
        rfl
    | heartbeatStalled h hst =>
        rw [← m.counter_outboundStalled s s.session.stats s.now, hst]
        cases m <;> rfl
    | _ => cases m <;> rfl

/-! ### Limits -/

/-- With its last event the log gives a goroutine of the tunnel reason to close it. -/
def Trips (log : List HealthEvent) : CloseCall → Prop
  | .user => False
  | .reader =>
      log.getLast? = some .readFailed ∧ maxConsecutiveReadErrors ≤ Monitor.reads.since log
  | .heartbeat =>
      log.getLast? = some .beat ∧ maxMissedHeartbeats < Monitor.beats.since log ∨
        log.getLast? = some .stalled
  | .flush =>
      log.getLast? = some (.acked false) ∧ maxConsecutiveSendErrors ≤ Monitor.acks.since log

theorem Resumes.ne_closeEnter {k : CloseCall} (h : Resumes pc) : pc ≠ .close .enter k := by
  cases h <;> exact nofun

/-- A goroutine compares its counter with the limit right after it has counted. -/
def HealthEvent.Checked (s : Shared) (pc : Pc) : HealthEvent → Prop
  | .readFailed =>
      pc = .close .enter .reader ∨ s.health.consecutiveReadErrs < maxConsecutiveReadErrors
  | .beat => pc = .close .enter .heartbeat ∨ s.health.missedHeartbeats ≤ maxMissedHeartbeats
  | .stalled => pc = .close .enter .heartbeat
  | .acked false =>
      pc = .close .enter .flush ∨ s.acks.consecutiveSendErrs < maxConsecutiveSendErrors
  | _ => True

theorem Acts.checked (h : Acts s pc s' pc') {e : HealthEvent}
    (he : healthEvent s pc pc' = some e) : e.Checked s' pc' := by
  rcases h with ⟨rfl, h⟩ | h
  · cases h with
    | closeAgain k _ hcl => simp [healthEvent, hcl] at he
    | readerErrDone hd => simp [healthEvent, hd] at he
    | _ => cases he
  · cases h with
    | readerErr hd hlt =>
        obtain rfl : .readFailed = e := by simpa [healthEvent, hd] using he
        exact Or.inr hlt
    | readerErrClose hd =>
        obtain rfl : .readFailed = e := by simpa [healthEvent, hd] using he
        exact Or.inl rfl
    | closeEnter k _ hcl =>
        obtain rfl : .closed k = e := by simpa [healthEvent, hcl] using he
        trivial
    | heartbeatBeat hle =>
        cases he
        exact Or.inr hle
    | heartbeatMissed =>
        cases he
        exact Or.inl rfl
    | heartbeatStalled =>
        cases he
        rfl
    | flushSent e hlt =>
        cases e with
        | none =>
            cases he
            trivial
        | some e =>
            cases he
            exact Or.inr (hlt.resolve_left nofun)
    | flushClose =>
        cases he
        exact Or.inl rfl
    | _ =>
        cases he
        try trivial

section trips
variable {k : CloseCall} (h : Acts s pc s' pc') (hlog : ∀ m : Monitor, m.counter s = m.since log)
include h hlog

theorem Acts.since_note (m : Monitor) :
    m.since (log ++ (healthEvent s pc pc').toList) = m.counter s' := by
  rw [Monitor.since_note, ← hlog, h.counter]

/-- A goroutine calls `Close` when it has reason to. -/
theorem Acts.trips_of_enter (hk : k ≠ .user) (hpc : pc' = .close .enter k) :
    Trips (log ++ (healthEvent s pc pc').toList) k := by
  have hsince := h.since_note hlog
  rcases h with ⟨rfl, h⟩ | h
  · cases h with
    | callClose =>
        cases hpc
        exact absurd rfl hk
    | sendCheckClosed | sendCheckExpired | sendSelectClosed | sendSelectDone | sendSelectTimeout =>
        exact absurd hpc (SendCall.ret_resumes _ _).ne_closeEnter
    | closeAgain j => exact absurd hpc j.ret_background.resumes.ne_closeEnter
    | _ => cases hpc
  · cases h with
    | readerErrClose hd hmax =>
        cases hpc
        refine ⟨by simp [healthEvent, hd], ?_⟩
        rw [hsince]
        exact hmax
    | heartbeatMissed hmax =>
        cases hpc
        refine Or.inl ⟨by simp [healthEvent], ?_⟩
        rw [hsince]
        exact hmax
    | heartbeatStalled =>
        cases hpc
        exact Or.inr (by simp [healthEvent])
    | flushClose e hmax =>
        cases hpc
        refine ⟨by simp [healthEvent], ?_⟩
        rw [hsince]
        exact hmax
    | sendGiveBack | sendRelease => exact absurd hpc (SendCall.ret_resumes _ _).ne_closeEnter
    | sendWriteOk k | sendWriteFail k | sendBlockedOk k | sendBlockedFail k =>
        rcases k.written_cases _ with ⟨_, _, hw⟩ | ⟨_, hw⟩ <;> rw [hw] at hpc <;> cases hpc
    | signalInterrupt c j => exact absurd hpc (SignalCall.ret_resumes _ _).ne_closeEnter
    | closeCallback j => exact absurd hpc j.ret_background.resumes.ne_closeEnter
    | readerCount q => exact absurd hpc (dispatch_background q.body).resumes.ne_closeEnter
    | _ => cases hpc

/-- A goroutine that has reason to calls `Close`. -/
theorem Acts.enter_of_trips {e : HealthEvent} (he : healthEvent s pc pc' = some e)
    (ht : Trips (log ++ [e]) k) : pc' = .close .enter k := by
  have hchecked := h.checked he
  have hsince : ∀ m : Monitor, m.since (log ++ [e]) = m.counter s' := by
    intro m
    rw [← h.since_note hlog m, he]
    rfl
  have hlast : (log ++ [e]).getLast? = some e := List.getLast?_concat
  cases k with
  | user => cases ht
  | reader =>
      obtain ⟨hev, hmax⟩ := ht
      cases hlast.symm.trans hev
      rw [hsince] at hmax
      exact hchecked.resolve_right (Nat.not_lt_of_le hmax)
  | heartbeat =>
      rcases ht with ⟨hev, hmax⟩ | hev
      · cases hlast.symm.trans hev
        rw [hsince] at hmax
        exact hchecked.resolve_right (Nat.not_le_of_lt hmax)
      · cases hlast.symm.trans hev
        exact hchecked
  | flush =>
      obtain ⟨hev, hmax⟩ := ht
      cases hlast.symm.trans hev
      rw [hsince] at hmax
      exact hchecked.resolve_right (Nat.not_lt_of_le hmax)

end trips

/-- At some time so far the log gave reason to close the tunnel. -/
def Tripped (log : List HealthEvent) (k : CloseCall) : Prop := ∃ pre, pre <+: log ∧ Trips pre k

theorem Tripped.append {k : CloseCall} (h : Tripped log k) (es : List HealthEvent) :
    Tripped (log ++ es) k := by
  obtain ⟨pre, hpre, ht⟩ := h
  exact ⟨pre, hpre.trans (List.prefix_append log es), ht⟩

/-- A prefix of a log with one more event is the whole log, or one of the log before. -/
theorem prefix_note {pre : List HealthEvent} {e : Option HealthEvent}
    (h : pre <+: log ++ e.toList) :
    pre <+: log ∨ ∃ e', e = some e' ∧ pre = log ++ [e'] := by
  cases e with
  | none => exact Or.inl (by simpa using h)
  | some e =>
      rcases List.prefix_concat_iff.mp h with hall | hpre
      · exact Or.inr ⟨e, rfl, hall⟩
      · exact Or.inl hpre

/-- The counters are exact; goroutines are in `Close` for a reason, and no reason is ignored. -/
structure Watch (w : World Shared Pc) (log : List HealthEvent) : Prop where
  counted : ∀ m : Monitor, m.counter w.shared = m.since log
  entering : ∀ t k, w.thr t = .close .enter k → k = .user ∨ Tripped log k
  entered : ∀ pre k post, log = pre ++ .closed k :: post → k = .user ∨ Tripped pre k
  heeded : ∀ k, Tripped log k → w.shared.life.closed = true ∨ ∃ t, w.thr t = .close .enter k
  closed : w.shared.life.closed = true → ∃ k, .closed k ∈ log

theorem Watch.start (now : Time) (session : Session) : Watch (start now session) [] := by
  refine ⟨fun m => by cases m <;> rfl, fun t k ht => ?_, fun pre k post hs => ?_,
    fun k htrip => ?_, nofun⟩
  · rcases startThreads_cases t with hst | hst | hst <;> cases hst.symm.trans ht
  · cases pre <;> cases hs
  · obtain ⟨pre, hpre, ht⟩ := htrip
    rw [List.prefix_nil.mp hpre] at ht
    cases k <;> simp [Trips] at ht

/-- An open tunnel is closed by whoever enters `Close`. -/
theorem Acts.closed_event (h : Acts s pc s' pc') {k : CloseCall}
    (he : healthEvent s pc pc' = some (.closed k)) : pc = .close .enter k := by
  rcases h with ⟨rfl, h⟩ | h
  · cases h with
    | closeAgain k _ hcl => simp [healthEvent, hcl] at he
    | readerErrDone hd => simp [healthEvent, hd] at he
    | _ => cases he
  · cases h with
    | readerErr hd | readerErrClose hd => simp [healthEvent, hd] at he
    | closeEnter j _ hcl =>
        simp only [healthEvent, hcl, Bool.false_eq_true, if_false, Option.some.injEq,
          HealthEvent.closed.injEq] at he
        rw [he]
    | _ => cases he

theorem Acts.closes_tunnel (h : Acts s pc s' pc') (hcl : s'.life.closed = true) :
    s.life.closed = true ∨ ∃ k, healthEvent s pc pc' = some (.closed k) := by
  rcases h with ⟨rfl, _⟩ | h
  · exact Or.inl hcl
  · cases h with
    | closeEnter k _ hopen => exact Or.inr ⟨k, by simp [healthEvent, hopen]⟩
    | _ => exact Or.inl hcl

theorem Acts.closed_of_enter {k : CloseCall} (h : Acts s (.close .enter k) s' pc') :
    s'.life.closed = true := by
  rcases h with ⟨rfl, h⟩ | h
  · cases h with
    | closeAgain _ _ hcl => exact hcl
  · cases h with
    | closeEnter => rfl

theorem Watch.step {t : ℕ} (hi : Watch w log) (ha : Acts w.shared (w.thr t) s pc) :
    Watch ⟨s, Function.update w.thr t pc⟩ (healthNote log t w.shared (w.thr t) s pc) := by
  refine ⟨fun m => (ha.since_note hi.counted m).symm, fun u k => ?_, fun pre k post hsplit => ?_,
    fun k htrip => ?_, fun hcl => ?_⟩
  · refine forall_update (P := fun _ (p : Pc) => p = .close .enter k → k = .user ∨
      Tripped (healthNote log t w.shared (w.thr t) s pc) k) (fun hpc => ?_) (fun v _ hv => ?_) u
    · by_cases hk : k = .user
      · exact Or.inl hk
      · exact Or.inr ⟨_, List.prefix_rfl, ha.trips_of_enter hi.counted hk hpc⟩
    · rcases hi.entering v k hv with hk | htrip
      · exact Or.inl hk
      · exact Or.inr (htrip.append _)
  · have hpre : pre ++ [.closed k] <+: log ++ (healthEvent w.shared (w.thr t) pc).toList :=
      ⟨post, by rw [List.append_assoc]; exact hsplit.symm⟩
    rcases prefix_note hpre with ⟨post', hold⟩ | ⟨e, he, hnew⟩
    · refine hi.entered pre k post' ?_
      rw [← hold, List.append_assoc]
      rfl
    · obtain ⟨rfl, hek⟩ := List.append_inj' hnew rfl
      cases hek
      exact hi.entering t k (ha.closed_event he)
  · obtain ⟨pre, hpre, ht⟩ := htrip
    rcases prefix_note hpre with hold | ⟨e, he, rfl⟩
    · rcases hi.heeded k ⟨pre, hold, ht⟩ with hcl | ⟨u, hu⟩
      · exact Or.inl (Acts.keepsReasons ha |>.closed hcl)
      · by_cases hut : u = t
        · subst hut
          rw [hu] at ha
          exact Or.inl ha.closed_of_enter
        · exact Or.inr ⟨u, by simpa [hut] using hu⟩
    · exact Or.inr ⟨t, by simpa using ha.enter_of_trips hi.counted he ht⟩
  · rcases ha.closes_tunnel hcl with hold | ⟨k, he⟩
    · obtain ⟨k, hk⟩ := hi.closed hold
      exact ⟨k, List.mem_append_left _ hk⟩
    · exact ⟨k, List.mem_append_right _ (by simp [he])⟩

theorem watch (h : healthSystem.Reach (fun p => ok p.1) (w, log)) : Watch w log := by
  refine recorded_invariant (I := Watch) ?_ ?_ ?_ h
  · intro now session _
    exact .start now session
  · intro w log t c s pc _ hi _ _ ha
    exact hi.step ha
  · intro w log d _ hi
    refine ⟨fun m => ?_, hi.entering, hi.entered, hi.heeded, hi.closed⟩
    rw [← hi.counted m]
    cases m <;> rfl

/-- **A tunnel closes itself for a cause, and for every cause.**  In every run: each counter has the
number of its hits since its last reset; the `Tunnel.Close` that closes the tunnel was called from
outside, or before it there were ten failed reads in a row, twenty-five heartbeats without a packet
in between, a stall, or five failed ACKs in a row; and as soon as there is such a cause, the tunnel
is closed or the goroutine that has seen it is in `Close`. -/
theorem self_close_cause (h : healthSystem.Reachable (w, log)) :
    (∀ m : Monitor, m.counter w.shared = m.since log) ∧
    (w.shared.life.closed = true → ∃ pre k post, log = pre ++ .closed k :: post ∧
      (k = .user ∨ Tripped pre k)) ∧
    ∀ k, Tripped log k → w.shared.life.closed = true ∨ ∃ t, w.thr t = .close .enter k := by
  have hi : Watch w log := @watch _ _ (fun _ _ => True) h
  refine ⟨hi.counted, fun hcl => ?_, hi.heeded⟩
  obtain ⟨k, hk⟩ := hi.closed hcl
  obtain ⟨pre, post, hsplit⟩ := List.append_of_mem hk
  exact ⟨pre, k, post, hsplit, hi.entered pre k post hsplit⟩

/-- Ten reads fail, and the reader closes the tunnel. -/
theorem self_close_cause_reads :
    ∃ w log, healthSystem.exec (fun _ _ => True) (start 1 newSession, [])
        (acts 0 ((List.replicate 10 [.go, .recv .error, .go]).flatten ++ [.go])) = some (w, log) ∧
      log = List.replicate 10 .readFailed ++ [.closed .reader] ∧
      w.shared.life.closed = true ∧ w.shared.health.consecutiveReadErrs = 10 ∧
      ∃ pre k post, log = pre ++ .closed k :: post ∧ (k = .user ∨ Tripped pre k) := by
  have hrun : (healthSystem.exec (fun _ _ => True) (start 1 newSession, [])
      (acts 0 ((List.replicate 10 [.go, .recv .error, .go]).flatten ++ [.go]))).map
        (fun p => (p.2, p.1.shared.life.closed)) =
      some (List.replicate 10 .readFailed ++ [.closed .reader], true) := by
    decide +kernel
  obtain ⟨⟨w, log⟩, hw, he⟩ := Option.map_eq_some_iff.mp hrun
  obtain ⟨hlog, hcl⟩ := Prod.mk.inj he
  have hstart : healthSystem.Reachable (start 1 newSession, []) :=
    .init ⟨⟨1, newSession, by decide, rfl⟩, rfl⟩
  obtain ⟨hcount, hcause, _⟩ := self_close_cause (System.Reach.exec hstart hw)
  refine ⟨w, log, hw, hlog, hcl, ?_, hcause hcl⟩
  have hreads : w.shared.health.consecutiveReadErrs = Monitor.reads.since log := hcount .reads
  have hlog : log = List.replicate 10 .readFailed ++ [.closed .reader] := hlog
  rw [hreads, hlog]
  decide

end DahuaP2p.Tunnel
