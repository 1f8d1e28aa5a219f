import DahuaP2p.TunnelOrder
import DahuaP2p.TunnelRealms

/-! # Acknowledgements

The reader asks for an ACK after every payload, status and heartbeat packet (`scheduleACK`); a
timer coalesces the requests into one `flushACK`, which holds `ackMu` from its start to the moment
its packet is sent.  On an open tunnel at most one flush is armed or running (`one_flush`), and
`ackPending` says that there is one.

What is acknowledged is stated over a log of the run (`AckLog`): the packets that the session
counted, how many there were when a `scheduleACK` returned, and how many when an ACK was built.
Since `scheduleACK` needs `ackMu`, it returns before a flush takes the lock or after that flush
has sent its ACK: a packet that finds a flush pending is counted before the ACK of that flush is
built.  `acks_cover` proves that no packet is left without an ACK that covers it, sent or due, as
long as no ACK fails to be sent; a failed one clears `ackPending` and is not repeated. -/

namespace DahuaP2p.Tunnel

open BigEndian Ptcp Threads

variable {s s' : Shared} {pc pc' : Pc} {w : World Shared Pc}
  {ok : World Shared Pc → Label Choice Time → Prop}

/-! ### At most one flush -/

def SendCall.isFlush : SendCall → Bool
  | flush => true
  | _ => false

/-- The timer of the goroutine has fired and its `flushACK` has not ended. -/
def Pc.inFlush : Pc → Bool
  | .flush _ => true
  | .send _ k => k.isFlush
  | _ => false

/-- No flush is running: none is pending, or its timer has not fired. -/
def Acks.flushFree (a : Acks) : Bool := !a.pending || !a.armed.isEmpty

/-- At most one timer is armed, and only for a pending ACK. -/
structure Acks.OneTimer (a : Acks) : Prop where
  armed : a.armed.length ≤ 1
  pending : a.armed ≠ [] → a.pending = true

section returns
variable (k : SendCall) (e : Option SendError) (d : ConnId) (j : SignalCall)

@[simp] theorem SendCall.ret_inFlush : (k.ret e).inFlush = k.isFlush := by
  cases k <;> cases e <;> simp only [SendCall.ret] <;> (try split) <;> rfl

@[simp] theorem SendCall.written_inFlush : (k.written e).inFlush = k.isFlush := by
  rcases k.written_cases e with ⟨_, _, h⟩ | ⟨_, h⟩ <;> rw [h] <;> rfl

@[simp] theorem SignalCall.ret_inFlush : (j.ret d).inFlush = false := by
  rcases j with _ | _ | _ | _ | _ <;> rfl

@[simp] theorem Background.inFlush (h : Background pc) : pc.inFlush = false := by
  cases h <;> rfl

end returns

theorem SendCall.eq_flush {k : SendCall} (h : k.isFlush = true) : k = .flush := by
  cases k with
  | flush => rfl
  | _ => cases h

theorem Acks.armed_of_busy {a : Acks} (h : a.flushFree = false) :
    a.pending = true ∧ a.armed = [] := by
  simp only [Acks.flushFree, Bool.or_eq_false_iff, Bool.not_eq_false', List.isEmpty_iff] at h
  exact h

theorem Acks.OneTimer.schedule {a : Acks} (h : a.OneTimer) :
    a.schedule.OneTimer ∧ a.schedule.flushFree = a.flushFree := by
  unfold Acks.schedule
  split
  · exact ⟨h, rfl⟩
  · next hp =>
      have hnil : a.armed = [] := not_not.mp fun hne => hp (h.pending hne)
      refine ⟨⟨?_, fun _ => rfl⟩, ?_⟩
      · simp [hnil]
      · simp [Acks.flushFree, hp]

theorem Acks.OneTimer.fire {a : Acks} (h : a.OneTimer) {i : ℕ} (hi : i ∈ a.armed) :
    Acks.OneTimer { a with armed := a.armed.erase i } ∧ a.flushFree = true ∧
      Acks.flushFree { a with armed := a.armed.erase i } = false := by
  have hpend : a.pending = true := h.pending (List.ne_nil_of_mem hi)
  have hnil : a.armed.erase i = [] := by
    have hlen := List.length_erase_of_mem hi
    have harm := h.armed
    exact List.length_eq_zero_iff.mp (by omega)
  refine ⟨⟨by simp [hnil], fun _ => hpend⟩, ?_, ?_⟩
  · simp [Acks.flushFree, List.ne_nil_of_mem hi]
  · simp [Acks.flushFree, hpend, hnil]

/-- On an open tunnel an action starts a flush when its timer fires and ends the one it runs. -/
theorem Acts.flushMove (h : Acts s pc s' pc') (hreason : pc.Reasoned s)
    (hopen : s'.life.closed = false) (hone : s.acks.OneTimer)
    (hbusy : pc.inFlush = true → s.acks.flushFree = false) :
    s'.acks.OneTimer ∧ Move s.acks.flushFree pc.inFlush s'.acks.flushFree pc'.inFlush := by
  have hend : ∀ e : Option SendError, pc.inFlush = true →
      (s.flushed e).acks.OneTimer ∧ (s.flushed e).acks.flushFree = true := by
    intro e hf
    have hnil := (Acks.armed_of_busy (hbusy hf)).2
    exact ⟨⟨by simp [Shared.flushed, hnil], fun hne => absurd hnil hne⟩, rfl⟩
  rcases h with ⟨rfl, h⟩ | h
  · refine ⟨hone, ?_⟩
    have hsame : pc'.inFlush = pc.inFlush := by
      cases h with
      | sendCheckClosed | sendCheckExpired | sendSelectClosed | sendSelectDone
      | sendSelectTimeout => exact SendCall.ret_inFlush _ _
      | closeAgain k => exact k.ret_background.inFlush
      | _ => rfl
    rw [hsame]
    exact .keep _ _
  · cases h with
    | flushFires i hi =>
        obtain ⟨hone, hfree, htaken⟩ := hone.fire hi
        refine ⟨hone, ?_⟩
        rw [htaken]
        exact .take hfree
    | readerAck =>
        obtain ⟨hone, hfree⟩ := hone.schedule
        refine ⟨hone, ?_⟩
        rw [hfree]
        exact .keep _ _
    | flushSent e | flushClose e =>
        obtain ⟨hone, hfree⟩ := hend _ rfl
        refine ⟨hone, ?_⟩
        rw [hfree]
        exact .give _
    | closeStopAck k =>
        have hclosed : s.life.closed = true := hreason
        have hopen : s.life.closed = false := hopen
        rw [hopen] at hclosed
        cases hclosed
    | sendGiveBack k | sendRelease k =>
        refine ⟨hone, ?_⟩
        rw [SendCall.ret_inFlush]
        exact .keep _ _
    | sendWriteOk k | sendWriteFail k | sendBlockedOk k | sendBlockedFail k =>
        refine ⟨hone, ?_⟩
        rw [SendCall.written_inFlush]
        exact .keep _ _
    | signalInterrupt | closeCallback | readerCount =>
        refine ⟨hone, ?_⟩
        simp only [SignalCall.ret_inFlush, Background.inFlush, CloseCall.ret_background,
          dispatch_background]
        exact .keep _ _
    | _ => exact ⟨hone, .keep _ _⟩

theorem open_before {t : ℕ} (ha : Acts w.shared (w.thr t) s pc) (hopen : s.life.closed = false) :
    w.shared.life.closed = false := by
  refine Bool.eq_false_iff.mpr fun hc => ?_
  have hc := ha.keepsReasons.closed hc
  rw [hopen] at hc
  cases hc

/-- **At most one flush** is armed or running on an open tunnel, and exactly then an ACK is
pending. -/
theorem one_flush (h : system.Reach ok w) (hopen : w.shared.life.closed = false) :
    w.shared.acks.OneTimer ∧ Exclusive w.shared.acks.flushFree fun t => (w.thr t).inFlush := by
  revert hopen
  refine system_invariant (I := fun w => w.shared.life.closed = false →
    w.shared.acks.OneTimer ∧ Exclusive w.shared.acks.flushFree fun t => (w.thr t).inFlush)
    ?_ ?_ ?_ h
  · intro now session _ _
    exact ⟨⟨Nat.zero_le 1, fun hne => absurd rfl hne⟩,
      Exclusive.of_none (forall_startThreads (P := fun p => p.inFlush = false) rfl rfl rfl)⟩
  · intro w t ch s pc hr hi _ _ ha hopen
    obtain ⟨hone, hx⟩ := hi (open_before ha hopen)
    obtain ⟨hone', hmove⟩ := ha.flushMove ((reasons hr).thr t) hopen hone hx.not_free
    exact ⟨hone', Exclusive.update_thr (h := Pc.inFlush) hx hmove⟩
  · intro w d _ hi
    exact hi

/-! ### The flush that has not built its ACK -/

/-- The `flushACK` of the goroutine has not built its packet. -/
def Pc.ackUnbuilt : Pc → Bool
  | .flush .lock => true
  | .send .enter k => k.isFlush
  | .send .await k => k.isFlush
  | .send .build k => k.isFlush
  | _ => false

theorem Pc.inFlush_of_ackUnbuilt (h : pc.ackUnbuilt = true) : pc.inFlush = true := by
  cases pc with
  | flush => rfl
  | send p k =>
      cases p with
      | enter | await | build => exact h
      | _ => cases h
  | _ => cases h

/-- A running flush waits for `ackMu` or has it. -/
theorem Pc.holds_of_inFlush (h : pc.inFlush = true) :
    pc = .flush .lock ∨ pc.holds .ackMu = true := by
  cases pc with
  | flush p =>
      cases p with
      | lock => exact Or.inl rfl
      | sent => exact Or.inr rfl
  | send p k =>
      obtain rfl := SendCall.eq_flush h
      exact Or.inr (by simp [Pc.holds, SendCall.holds])
  | _ => cases h

/-- A flush goes on until it builds its packet. -/
theorem Acts.ackUnbuilt (h : Acts s pc s' pc') (hp : pc.ackUnbuilt = true) :
    pc'.ackUnbuilt = true ∨ pc = .send .build .flush := by
  have hwriter : ∀ {k : SendCall} {c : ConnId}, k.isFlush = true → k.writer ≠ some c := by
    intro k c hk
    rw [SendCall.eq_flush hk]
    exact nofun
  rcases h with ⟨rfl, h⟩ | h
  · cases h with
    | sendEnter => exact Or.inl hp
    | sendEnterWriter k c _ hk => exact absurd hk (hwriter hp)
    | _ => cases hp
  · cases h with
    | sendOnce | sendTake | flushLock => exact Or.inl hp
    | sendOnceWriter k c _ hk => exact absurd hk (hwriter hp)
    | sendBuild k =>
        right
        rw [SendCall.eq_flush (k := k) hp]
    | _ => cases hp

/-! ### The log -/

/-- What the session counted, what was asked for and what was built: `counted` are the packets
given to `Session.Recv`; an entry of `scheduled` is the number of packets counted when a call of
`scheduleACK` returned; `acks` are the ACKs built, each with that number at the time. -/
structure AckLog where
  counted : List Packet := []
  scheduled : List ℕ := []
  acks : List (Packet × ℕ) := []

/-- The log after the next action of a goroutine. -/
def Pc.note (s : Shared) (a : AckLog) : Pc → AckLog
  | .reader (.count q) => { a with counted := a.counted ++ [q] }
  | .reader .ack => { a with scheduled := a.scheduled ++ [a.counted.length] }
  | .send .build .flush =>
      { a with acks := a.acks ++ [((s.session.send newEmptyBody).2, a.counted.length)] }
  | _ => a

def ackNote (a : AckLog) (w : World Shared Pc) : Label Choice Time → AckLog
  | .thread t _ => (w.thr t).note w.shared a
  | .env _ => a

/-- The tunnel with its log. -/
def ackSystem : System (World Shared Pc × AckLog) (Label Choice Time) := system.logged {} ackNote

variable {a : AckLog}

/-- **Invariant rule for the tunnel with its log.** -/
theorem ackSystem_invariant {I : World Shared Pc → AckLog → Prop}
    (hstart : ∀ now session, I (start now session) {})
    (hact : ∀ w a t c s pc, system.Reach ok w → I w a → ok w (.thread t c) →
      next w.shared (w.thr t) c = some (s, pc) → Acts w.shared (w.thr t) s pc →
      I ⟨s, Function.update w.thr t pc⟩ ((w.thr t).note w.shared a))
    (htime : ∀ w a d, I w a → I ⟨{ w.shared with now := w.shared.now + d }, w.thr⟩ a)
    (h : ackSystem.Reach (fun p => ok p.1) (w, a)) : I w a := by
  refine logged_invariant ?_ ?_ ?_ h
  · rintro w ⟨now, session, _, rfl⟩
    exact hstart now session
  · intro w a t c s pc hr hi hok hn
    exact hact w a t c s pc hr hi hok hn (next_cases hn)
  · intro w a d s _ hi _ he
    cases he
    exact htime w a d hi

/-! ### What the ACKs report -/

/-- The session has counted the packets of the log, and every ACK reports in `Recv` the body bytes
of those counted when it was built. -/
structure Reports (s : Shared) (a : AckLog) : Prop where
  recv : s.session.recv = s.hist.initial.recv + UInt32.ofNat (bodyBytes a.counted)
  acks : ∀ e ∈ a.acks, e.2 ≤ a.counted.length ∧ e.1.body = newEmptyBody ∧
    e.1.header.recv = s.hist.initial.recv + UInt32.ofNat (bodyBytes (a.counted.take e.2))

theorem Acts.reports (h : Acts s pc s' pc') (hi : Reports s a) : Reports s' (pc.note s a) := by
  rcases h with ⟨rfl, h⟩ | h
  · cases h <;> exact hi
  · cases h with
    | readerCount q =>
        refine ⟨?_, fun e he => ?_⟩
        · simp [Pc.note, bodyBytes, Session.recvPacket, hi.recv, Body.serialize_length,
            UInt32.ofNat_add, UInt32.add_assoc]
        · obtain ⟨hle, hbody, hrecv⟩ := hi.acks e he
          refine ⟨hle.trans (by simp [Pc.note]), hbody, ?_⟩
          simp only [Pc.note, List.take_append_of_le_length hle]
          exact hrecv
    | sendBuild k =>
        cases k with
        | flush =>
            refine ⟨hi.recv, fun e he => ?_⟩
            rcases List.mem_append.mp he with he | he
            · exact hi.acks e he
            · obtain rfl := List.mem_singleton.mp he
              refine ⟨le_rfl, rfl, ?_⟩
              simp only [Pc.note, List.take_length]
              exact hi.recv
        | _ => exact ⟨hi.recv, hi.acks⟩
    | _ => exact ⟨hi.recv, hi.acks⟩

theorem reports (h : ackSystem.Reach (fun p => ok p.1) (w, a)) : Reports w.shared a := by
  refine ackSystem_invariant (I := fun w a => Reports w.shared a) ?_ ?_ ?_ h
  · intro now session
    exact ⟨by simp [start, bodyBytes], fun e he => by cases he⟩
  · intro w a t c s pc _ hi _ _ ha
    exact ha.reports hi
  · intro w a d hi
    exact ⟨hi.recv, hi.acks⟩

/-! ### Every request is made -/

/-- The packets that the reader acknowledges. -/
def ackable (b : Body) : Bool :=
  match b.type with
  | .payload => true
  | .status => true
  | .heartbeat => true
  | _ => false

def SendCall.handling : SendCall → Bool
  | readerOverflow _ _ => true
  | _ => false

def SignalCall.handling : SignalCall → Bool
  | readerDisc => true
  | readerOverflow _ => true
  | _ => false

/-- The reader has counted a packet and is on its way to `scheduleACK`. -/
def Pc.handling : Pc → Bool
  | .reader (.conn _) => true
  | .reader (.disc _) => true
  | .reader (.lookup _ _) => true
  | .reader (.enqueue _ _ _) => true
  | .reader (.overflow _ _) => true
  | .reader .ack => true
  | .send _ k => k.handling
  | .signal _ _ k => k.handling
  | _ => false

theorem Pc.ofReader_of_handling (h : pc.handling = true) : pc.ofReader = true := by
  cases pc with
  | reader => rfl
  | send p k =>
      cases k with
      | readerOverflow => rfl
      | _ => cases h
  | signal p c k =>
      cases k with
      | readerDisc | readerOverflow => rfl
      | _ => cases h
  | _ => cases h

section returns
variable {k : SendCall} {j : SignalCall} (e : Option SendError) (d : ConnId) (b : Body)

theorem SendCall.handling_ret (h : k.handling = true) : (k.ret e).handling = true := by
  cases k with
  | readerOverflow => rfl
  | _ => cases h

theorem SendCall.handling_written (h : k.handling = true) : (k.written e).handling = true := by
  rcases k.written_cases e with ⟨_, _, he⟩ | ⟨_, he⟩ <;> rw [he] <;> exact h

theorem SignalCall.handling_ret (h : j.handling = true) : (j.ret d).handling = true := by
  cases j with
  | readerDisc | readerOverflow => rfl
  | _ => cases h

theorem dispatch_handling : (dispatch b).handling = ackable b := by
  unfold dispatch ackable
  cases b.type <;> dsimp only <;> (try split) <;> (try split) <;> rfl

end returns

/-- The reader goes on until it has called `scheduleACK`. -/
theorem Acts.handling (h : Acts s pc s' pc') (hp : pc.handling = true) :
    pc'.handling = true ∨ pc = .reader .ack := by
  rcases h with ⟨rfl, h⟩ | h
  · cases h with
    | sendCheckClosed | sendCheckExpired | sendSelectClosed | sendSelectDone | sendSelectTimeout =>
        exact Or.inl (SendCall.handling_ret _ hp)
    | readerFull => exact Or.inl rfl
    | _ => first | exact Or.inl hp | cases hp
  · cases h with
    | sendGiveBack | sendRelease => exact Or.inl (SendCall.handling_ret _ hp)
    | sendWriteOk | sendWriteFail | sendBlockedOk | sendBlockedFail =>
        exact Or.inl (SendCall.handling_written _ hp)
    | signalInterrupt d k => exact Or.inl (SignalCall.handling_ret d hp)
    | readerAck => exact Or.inr rfl
    | _ => first | exact Or.inl hp | exact Or.inl rfl | cases hp

/-- An action counts a packet, asks for an ACK, or does neither. -/
theorem Pc.note_cases (pc : Pc) (s : Shared) (a : AckLog) :
    (∃ q, pc = .reader (.count q) ∧ (pc.note s a).counted = a.counted ++ [q] ∧
      (pc.note s a).scheduled = a.scheduled) ∨
    (pc = .reader .ack ∧ (pc.note s a).counted = a.counted ∧
      (pc.note s a).scheduled = a.scheduled ++ [a.counted.length]) ∨
    (pc ≠ .reader .ack ∧ (pc.note s a).counted = a.counted ∧
      (pc.note s a).scheduled = a.scheduled) := by
  unfold Pc.note
  split
  · exact Or.inl ⟨_, rfl, rfl, rfl⟩
  · exact Or.inr (Or.inl ⟨rfl, rfl, rfl⟩)
  · exact Or.inr (Or.inr ⟨nofun, rfl, rfl⟩)
  · exact Or.inr (Or.inr ⟨by assumption, rfl, rfl⟩)

theorem Acts.of_count {q : Packet} (h : Acts s (.reader (.count q)) s' pc') :
    pc' = dispatch q.body := by
  rcases h with ⟨_, h⟩ | h <;> cases h
  rfl

/-- For every packet to be acknowledged `scheduleACK` has returned, or the reader is on its way
to it. -/
def Requested (w : World Shared Pc) (a : AckLog) : Prop :=
  ∀ i p, a.counted[i]? = some p → ackable p.body = true →
    i + 1 ∈ a.scheduled ∨ (i + 1 = a.counted.length ∧ ∃ t, (w.thr t).handling = true)

theorem requested (h : ackSystem.Reach (fun p => ok p.1) (w, a)) : Requested w a := by
  refine ackSystem_invariant (I := Requested) ?_ ?_ ?_ h
  · intro now session i p hp
    simp at hp
  · intro w a t ch s pc hr hi _ _ ha i p hp hack
    rcases (w.thr t).note_cases w.shared a with ⟨q, hpc, hc, hs⟩ | ⟨hpc, hc, hs⟩ | ⟨hpc, hc, hs⟩
    · rw [hc] at hp ⊢
      rw [hs]
      rcases getElem?_concat_cases hp with ⟨_, hp⟩ | ⟨rfl, rfl⟩
      · rcases hi i p hp hack with hsched | ⟨_, u, hu⟩
        · exact Or.inl hsched
        · -- the reader is done with the packet before it takes the next one
          have hu0 : u = 0 := reader_unique hr (Pc.ofReader_of_handling hu)
          have ht0 : t = 0 := reader_unique hr (by rw [hpc]; rfl)
          rw [hu0, ← ht0, hpc] at hu
          cases hu
      · refine Or.inr ⟨by simp, t, ?_⟩
        rw [hpc] at ha
        simp only [Function.update_self]
        rw [ha.of_count, dispatch_handling]
        exact hack
    · rw [hc] at hp ⊢
      rw [hs]
      rcases hi i p hp hack with hsched | ⟨hlast, _⟩
      · exact Or.inl (List.mem_append_left _ hsched)
      · exact Or.inl (List.mem_append_right _ (List.mem_singleton.mpr hlast))
    · rw [hc] at hp ⊢
      rw [hs]
      refine (hi i p hp hack).imp_right fun ⟨hlast, u, hu⟩ => ⟨hlast, ?_⟩
      by_cases hut : u = t
      · subst hut
        refine ⟨u, ?_⟩
        simp only [Function.update_self]
        exact (ha.handling hu).resolve_right hpc
      · refine ⟨u, ?_⟩
        simp only [Function.update_of_ne hut]
        exact hu
  · intro w a d hi
    exact hi

theorem Pc.note_scheduled_le (pc : Pc) (s : Shared) (h : ∀ n ∈ a.scheduled, n ≤ a.counted.length) :
    ∀ n ∈ (pc.note s a).scheduled, n ≤ (pc.note s a).counted.length := by
  intro n hn
  rcases pc.note_cases s a with ⟨q, _, hc, hs⟩ | ⟨_, hc, hs⟩ | ⟨_, hc, hs⟩
  · rw [hs] at hn
    rw [hc, List.length_append]
    exact (h n hn).trans (Nat.le_add_right _ _)
  · rw [hs] at hn
    rw [hc]
    rcases List.mem_append.mp hn with hn | hn
    · exact h n hn
    · exact (List.mem_singleton.mp hn).le
  · rw [hs] at hn
    rw [hc]
    exact h n hn

/-! ### Every request is covered -/

/-- The step is not a failed UDP write of an ACK. -/
def AcksSucceed (w : World Shared Pc) : Label Choice Time → Prop
  | .thread t ch => ch = .udp .fail → ∀ q ∈ (w.thr t).built, (w.thr t).inFlush = false
  | .env _ => True

instance (w : World Shared Pc) : ∀ l, Decidable (AcksSucceed w l)
  | .thread t ch => inferInstanceAs (Decidable (ch = .udp .fail →
      ∀ q ∈ (w.thr t).built, (w.thr t).inFlush = false))
  | .env _ => .isTrue trivial

/-- An ACK is pending, and the flush that will build it is armed or running. -/
def AckDue (w : World Shared Pc) : Prop :=
  w.shared.acks.pending = true ∧
    (w.shared.acks.armed ≠ [] ∨ ∃ t, (w.thr t).ackUnbuilt = true)

/-- An ACK that was built after the first `n` packets were counted has been sent, or is being
sent. -/
def AckLog.Covers (a : AckLog) (w : World Shared Pc) (n : ℕ) : Prop :=
  ∃ e ∈ a.acks, n ≤ e.2 ∧
    (e.1 ∈ w.shared.hist.transmitted ∨ ∃ t, w.thr t = .send (.write e.1) .flush)

/-- While nobody has `ackMu`, a pending ACK is due. -/
theorem ackDue_of_pending (h : system.Reach ok w) (hopen : w.shared.life.closed = false)
    (hpend : w.shared.acks.pending = true) (hfree : w.shared.locks.ackMu = false) : AckDue w := by
  refine ⟨hpend, ?_⟩
  by_cases hnil : w.shared.acks.armed = []
  · have hbusy : w.shared.acks.flushFree = false := by simp [Acks.flushFree, hpend, hnil]
    obtain ⟨t, ht⟩ := (one_flush h hopen).2.exists_holder hbusy
    refine Or.inr ⟨t, ?_⟩
    rcases Pc.holds_of_inFlush ht with hlock | hholds
    · rw [hlock]
      rfl
    · have htaken := (resource_exclusive h .ackMu).not_free hholds
      simp [Shared.free, hfree] at htaken
  · exact Or.inl hnil

/-- A flush that has built its packet is the only one: no other is due. -/
theorem not_ackDue_of_built (h : system.Reach ok w) (hopen : w.shared.life.closed = false) {t : ℕ}
    (ht : (w.thr t).inFlush = true) (hbuilt : (w.thr t).ackUnbuilt = false) : ¬ AckDue w := by
  have hx := (one_flush h hopen).2
  rintro ⟨_, harmed | ⟨u, hu⟩⟩
  · exact harmed (Acks.armed_of_busy (hx.not_free ht)).2
  · have hut : u = t := hx.unique ht (Pc.inFlush_of_ackUnbuilt hu)
    rw [hut, hbuilt] at hu
    cases hu

theorem Acts.transmitted_mem (h : Acts s pc s' pc') {q : Packet}
    (hq : q ∈ s.hist.transmitted) : q ∈ s'.hist.transmitted := by
  rcases h with ⟨rfl, _⟩ | h
  · exact hq
  · cases h with
    | sendWriteOk | sendBlockedOk => exact List.mem_append_left _ hq
    | _ => exact hq

/-- An ACK whose UDP write does not fail is transmitted. -/
theorem AcksSucceed.transmitted {t : ℕ} {ch : Choice} {q : Packet}
    (hok : AcksSucceed w (.thread t ch)) (ht : w.thr t = .send (.write q) .flush)
    (hn : next w.shared (w.thr t) ch = some (s, pc)) : q ∈ s.hist.transmitted := by
  rw [ht] at hn
  have ha := next_cases hn
  rcases ha with ⟨_, ha⟩ | ha
  · cases ha
  · cases ha with
    | sendWriteOk => exact List.mem_append_right _ (List.mem_singleton.mpr rfl)
    | sendWriteFail =>
        rcases write_fails hn with hsame | hfail
        · exact absurd hsame (Nat.succ_ne_self _)
        · have hflush := hok hfail q (by rw [ht]; exact List.mem_singleton.mpr rfl)
          rw [ht] at hflush
          cases hflush
    | sendWriteBlock _ _ _ hk => cases hk

theorem Pc.note_acks (pc : Pc) (s : Shared) (a : AckLog) :
    ∀ e ∈ a.acks, e ∈ (pc.note s a).acks := by
  unfold Pc.note
  split
  · exact fun _ => id
  · exact fun _ => id
  · exact fun e he => List.mem_append_left _ he
  · exact fun _ => id

theorem AckLog.Covers.step {t : ℕ} {ch : Choice} {n : ℕ} (h : a.Covers w n)
    (hok : AcksSucceed w (.thread t ch)) (hn : next w.shared (w.thr t) ch = some (s, pc)) :
    ((w.thr t).note w.shared a).Covers ⟨s, Function.update w.thr t pc⟩ n := by
  obtain ⟨e, he, hle, hsent⟩ := h
  refine ⟨e, Pc.note_acks _ _ _ e he, hle, ?_⟩
  rcases hsent with htrans | ⟨u, hu⟩
  · exact Or.inl ((next_cases hn).transmitted_mem htrans)
  · by_cases hut : u = t
    · subst hut
      exact Or.inl (hok.transmitted hu hn)
    · refine Or.inr ⟨u, ?_⟩
      simp only [Function.update_of_ne hut]
      exact hu

/-- What is due stays due, until its packet is built or the flush ends. -/
theorem AckDue.step {t : ℕ} (h : AckDue w) (ha : Acts w.shared (w.thr t) s pc)
    (hreason : (w.thr t).Reasoned w.shared) (hopen : s.life.closed = false) :
    AckDue ⟨s, Function.update w.thr t pc⟩ ∨ w.thr t = .send .build .flush ∨
      ∃ e, w.thr t = .flush (.sent e) := by
  obtain ⟨hpend, hdue⟩ := h
  have hrunning : (∃ u, (w.thr u).ackUnbuilt = true) →
      (∃ u, (Function.update w.thr t pc u).ackUnbuilt = true) ∨
        w.thr t = .send .build .flush := by
    rintro ⟨u, hu⟩
    by_cases hut : u = t
    · subst hut
      exact (ha.ackUnbuilt hu).imp_left fun hp => ⟨u, by simpa using hp⟩
    · exact Or.inl ⟨u, by simpa [hut] using hu⟩
  generalize hpc : w.thr t = p at ha hreason hrunning ⊢
  have hsame : s.acks = w.shared.acks →
      AckDue ⟨s, Function.update w.thr t pc⟩ ∨ p = .send .build .flush ∨
        ∃ e, p = .flush (.sent e) := by
    intro he
    rcases hdue with harmed | hrun
    · exact Or.inl ⟨by rw [he]; exact hpend, Or.inl (by rw [he]; exact harmed)⟩
    · rcases hrunning hrun with hrun | hbuild
      · exact Or.inl ⟨by rw [he]; exact hpend, Or.inr hrun⟩
      · exact Or.inr (Or.inl hbuild)
  rcases ha with ⟨rfl, ha⟩ | ha
  · exact hsame rfl
  · cases ha with
    | flushFires i hi => exact Or.inl ⟨hpend, Or.inr ⟨t, by simp [Pc.ackUnbuilt]⟩⟩
    | readerAck => exact hsame (by simp [Acks.schedule, hpend])
    | flushSent e => exact Or.inr (Or.inr ⟨e, rfl⟩)
    | flushClose e => exact Or.inr (Or.inr ⟨some e, rfl⟩)
    | closeStopAck k =>
        have hclosed : w.shared.life.closed = true := hreason
        have hopen : w.shared.life.closed = false := hopen
        rw [hopen] at hclosed
        cases hclosed
    | _ => exact hsame rfl

theorem Acts.of_ack (h : Acts s (.reader .ack) s' pc') :
    s'.acks.pending = true ∧ s'.locks.ackMu = false := by
  rcases h with ⟨_, h⟩ | h
  · cases h
  · cases h with
    | readerAck hfree =>
        refine ⟨?_, hfree⟩
        unfold Acks.schedule
        split
        · assumption
        · rfl

theorem Acts.of_build (h : Acts s (.send .build .flush) s' pc') :
    pc' = .send (.write (s.session.send newEmptyBody).2) .flush := by
  rcases h with ⟨_, h⟩ | h <;> cases h
  rfl

/-- A packet that is covered stays so, and one that is due gets covered when the ACK is built. -/
theorem covered_or_due_step {t n : ℕ} {ch : Choice} (hr : system.Reach AcksSucceed w)
    (hok : AcksSucceed w (.thread t ch)) (hn : next w.shared (w.thr t) ch = some (s, pc))
    (hopen : s.life.closed = false) (hle : n ≤ a.counted.length) (h : a.Covers w n ∨ AckDue w) :
    ((w.thr t).note w.shared a).Covers ⟨s, Function.update w.thr t pc⟩ n ∨
      AckDue ⟨s, Function.update w.thr t pc⟩ := by
  have ha := next_cases hn
  rcases h with hcov | hdue
  · exact Or.inl (hcov.step hok hn)
  · rcases hdue.step ha ((reasons hr).thr t) hopen with hdue' | hbuild | ⟨e, hsent⟩
    · exact Or.inr hdue'
    · -- the ACK built now covers everything counted so far
      refine Or.inl ⟨((w.shared.session.send newEmptyBody).2, a.counted.length), ?_, hle,
        Or.inr ⟨t, ?_⟩⟩
      · rw [hbuild]
        exact List.mem_append_right _ (List.mem_singleton.mpr rfl)
      · rw [hbuild] at ha
        simp only [Function.update_self]
        exact ha.of_build
    · refine absurd hdue (not_ackDue_of_built (t := t) hr (open_before ha hopen) ?_ ?_) <;>
        rw [hsent] <;> rfl

/-- **Every request is covered or due.** -/
theorem covered_or_due (h : ackSystem.Reach (fun p => AcksSucceed p.1) (w, a)) :
    (∀ n ∈ a.scheduled, n ≤ a.counted.length) ∧
      (w.shared.life.closed = false → ∀ n ∈ a.scheduled, a.Covers w n ∨ AckDue w) := by
  refine ackSystem_invariant (I := fun w a => (∀ n ∈ a.scheduled, n ≤ a.counted.length) ∧
    (w.shared.life.closed = false → ∀ n ∈ a.scheduled, a.Covers w n ∨ AckDue w)) ?_ ?_ ?_ h
  · intro now session
    exact ⟨fun n hn => (by cases hn), fun _ n hn => (by cases hn)⟩
  · intro w a t ch s pc hr hi hok hn ha
    refine ⟨(w.thr t).note_scheduled_le _ hi.1, fun hopen n hmem => ?_⟩
    have hold := fun hmem : n ∈ a.scheduled => covered_or_due_step hr hok hn hopen (hi.1 n hmem)
      (hi.2 (open_before ha hopen) n hmem)
    rcases (w.thr t).note_cases w.shared a with ⟨q, _, _, hs⟩ | ⟨hpc, _, hs⟩ | ⟨_, _, hs⟩
    · exact hold (hs ▸ hmem)
    · rw [hs] at hmem
      rcases List.mem_append.mp hmem with hmem | _
      · exact hold hmem
      · rw [hpc] at ha
        obtain ⟨hpend, hfree⟩ := ha.of_ack
        have hr' : system.Reach AcksSucceed ⟨s, Function.update w.thr t pc⟩ :=
          hr.step hok (interleave_step_thread.mpr ⟨s, pc, hn, rfl⟩)
        exact Or.inr (ackDue_of_pending hr' hopen hpend hfree)
    · exact hold (hs ▸ hmem)
  · intro w a d hi
    exact hi

/-- **ACK coverage.**  In every state of a run in which no ACK fails to be sent, and in which the
tunnel is open: at most one `flushACK` is armed or running; whenever `scheduleACK` has returned
with `n` packets counted, an ACK built after these `n` was sent or is being sent, or an ACK is
pending and the flush that will build it is armed or running; the `Recv` of an ACK counts the
packets received when it was built; and `scheduleACK` has returned for every payload, status and
heartbeat packet that was counted, except for the one that the reader is working on. -/
theorem acks_cover (h : system.Reach AcksSucceed w) (hopen : w.shared.life.closed = false) :
    (w.shared.acks.armed.length ≤ 1 ∧
      (w.shared.acks.armed ≠ [] → ∀ t, (w.thr t).inFlush = false) ∧
      ∀ t u, (w.thr t).inFlush = true → (w.thr u).inFlush = true → u = t) ∧
    (∃ a, ackSystem.Reach (fun p => AcksSucceed p.1) (w, a)) ∧
    ∀ a, ackSystem.Reach (fun p => AcksSucceed p.1) (w, a) →
      (∀ n ∈ a.scheduled, a.Covers w n ∨ AckDue w) ∧ Reports w.shared a ∧ Requested w a := by
  obtain ⟨hone, hx⟩ := one_flush h hopen
  refine ⟨⟨hone.armed, fun harmed t => ?_, fun t u => hx.unique⟩, h.exists_log, fun a ha => ?_⟩
  · refine Bool.eq_false_iff.mpr fun ht => harmed ?_
    exact (Acks.armed_of_busy (hx.not_free ht)).2
  · exact ⟨(covered_or_due ha).2 hopen, reports ha, requested ha⟩

/-- A heartbeat arrives and its ACK is built; a second heartbeat is counted while that ACK is being
sent, and its `scheduleACK` waits for `ackMu`. -/
def ackScript : List (Label Choice Time) :=
  receiveScript newHeartbeatBody 3 ++ acts 2 (.call (.flushACK 0) :: gos 4) ++
    receiveScript newHeartbeatBody 2 ++ acts 2 [.udp .ok, .go, .go] ++ acts 0 [.go]

/-- The first ACK covers the first heartbeat; for the second one a new flush is armed. -/
theorem acks_cover_ackScript :
    ∃ w a, ackSystem.exec (fun p => AcksSucceed p.1) (start 1 newSession, {}) ackScript =
        some (w, a) ∧
      a.scheduled = [1, 2] ∧ a.acks.map Prod.snd = [1] ∧ w.shared.acks.armed = [1] ∧
      ∀ n ∈ a.scheduled, a.Covers w n ∨ AckDue w := by
  have hrun : (ackSystem.exec (fun p => AcksSucceed p.1) (start 1 newSession, {}) ackScript).map
      (fun p => (p.1.shared.life.closed, p.2.scheduled, p.2.acks.map Prod.snd,
        p.1.shared.acks.armed)) = some (false, [1, 2], [1], [1]) := by
    decide +kernel
  obtain ⟨⟨w, a⟩, hw, he⟩ := Option.map_eq_some_iff.mp hrun
  simp only [Prod.mk.injEq] at he
  have ha : ackSystem.Reach (fun p => AcksSucceed p.1) (w, a) :=
    System.Reach.exec (.init ⟨⟨1, newSession, by decide, rfl⟩, rfl⟩) hw
  exact ⟨w, a, hw, he.2.1, he.2.2.1, he.2.2.2, ((acks_cover ha.unlog he.1).2.2 a ha).1⟩

end DahuaP2p.Tunnel
