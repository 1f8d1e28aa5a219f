import DahuaP2p.TunnelActions

/-! # Locks and the send permit of a tunnel

For each mutex that may be held across a wait, and for the send permit, the control states
that hold it; every action takes the resource only when it is free and gives back only what it
holds (`Acts.move`).  With the library rule for exclusive resources this gives
`resource_exclusive`: in every reachable state each of them is free, or held by exactly one
goroutine. -/

namespace DahuaP2p.Tunnel

open BigEndian Ptcp Threads

/-! ### Invariants of a tunnel -/

/-- **Invariant rule for the tunnel**: the start, one action of a goroutine, the clock. -/
theorem system_invariant {ok : World Shared Pc → Label Choice Time → Prop}
    {I : World Shared Pc → Prop} {w : World Shared Pc}
    (hstart : ∀ now session, 0 < now → I (start now session))
    (hact : ∀ w t c s pc, system.Reach ok w → I w → ok w (.thread t c) →
      next w.shared (w.thr t) c = some (s, pc) → Acts w.shared (w.thr t) s pc →
      I ⟨s, Function.update w.thr t pc⟩)
    (htime : ∀ w d, system.Reach ok w → I w →
      I ⟨{ w.shared with now := w.shared.now + d }, w.thr⟩)
    (h : system.Reach ok w) : I w := by
  refine interleave_invariant ?_ ?_ ?_ h
  · rintro w ⟨now, session, hnow, rfl⟩
    exact hstart now session hnow
  · intro w t c s pc hr hi hok hn
    exact hact w t c s pc hr hi hok hn (next_cases hn)
  · intro w d s hr hi _ he
    cases he
    exact htime w d hr hi

/-- A step is an action of a goroutine, or time passes. -/
theorem system_step_cases {w w' : World Shared Pc} {l : Label Choice Time}
    (h : system.step w l = some w') :
    (∃ t c s pc, l = .thread t c ∧ next w.shared (w.thr t) c = some (s, pc) ∧
      Acts w.shared (w.thr t) s pc ∧ w' = ⟨s, Function.update w.thr t pc⟩) ∨
    ∃ d, l = .env d ∧ w' = ⟨{ w.shared with now := w.shared.now + d }, w.thr⟩ := by
  cases l with
  | thread t c =>
      obtain ⟨s, pc, hn, rfl⟩ := interleave_step_thread.mp h
      exact Or.inl ⟨t, c, s, pc, rfl, hn, next_cases hn, rfl⟩
  | env d =>
      obtain ⟨s, he, rfl⟩ := interleave_step_env.mp h
      cases he
      exact Or.inr ⟨d, rfl, rfl⟩

section recording
variable {α : Type} (note : α → ℕ → Shared → Pc → Shared → Pc → α)

/-- A log of the actions: `note` is given the goroutine, and its memory and control state before
and after the action. -/
def recording (a : α) (w : World Shared Pc) : Label Choice Time → α
  | .thread t c =>
      match next w.shared (w.thr t) c with
      | some (s, pc) => note a t w.shared (w.thr t) s pc
      | none => a
  | .env _ => a

/-- The tunnel with a log. -/
def recorded (a₀ : α) : System (World Shared Pc × α) (Label Choice Time) :=
  system.logged a₀ (recording note)

variable {note}

/-- **Invariant rule for the tunnel with a log.** -/
theorem recorded_invariant {ok : World Shared Pc → Label Choice Time → Prop}
    {I : World Shared Pc → α → Prop} {w : World Shared Pc} {a₀ a : α}
    (hstart : ∀ now session, 0 < now → I (start now session) a₀)
    (hact : ∀ w a t c s pc, system.Reach ok w → I w a → ok w (.thread t c) →
      next w.shared (w.thr t) c = some (s, pc) → Acts w.shared (w.thr t) s pc →
      I ⟨s, Function.update w.thr t pc⟩ (note a t w.shared (w.thr t) s pc))
    (htime : ∀ w a d, system.Reach ok w → I w a →
      I ⟨{ w.shared with now := w.shared.now + d }, w.thr⟩ a)
    (h : (recorded note a₀).Reach (fun p => ok p.1) (w, a)) : I w a := by
  refine logged_invariant ?_ ?_ ?_ h
  · rintro w ⟨now, session, hnow, rfl⟩
    exact hstart now session hnow
  · intro w a t c s pc hr hi hok hn
    have hnote : recording note a w (.thread t c) = note a t w.shared (w.thr t) s pc := by
      simp only [recording, hn]
    rw [hnote]
    exact hact w a t c s pc hr hi hok hn (next_cases hn)
  · intro w a d s hr hi _ he
    cases he
    exact htime w a d hr hi

end recording

/-- The goroutines of a tunnel that `New` returned are the reader, the heartbeat and idle
ones. -/
theorem startThreads_cases (t : ℕ) :
    startThreads t = .reader .top ∨ startThreads t = .heartbeat .loop ∨ startThreads t = .idle := by
  match t with
  | 0 => exact Or.inl rfl
  | 1 => exact Or.inr (Or.inl rfl)
  | _ + 2 => exact Or.inr (Or.inr rfl)

/-- A statement about control states holds at the start if it holds of these three. -/
theorem forall_startThreads {P : Pc → Prop} (hr : P (.reader .top)) (hh : P (.heartbeat .loop))
    (hi : P .idle) (t : ℕ) : P (startThreads t) := by
  rcases startThreads_cases t with h | h | h <;> rw [h] <;> assumption

/-- **What a goroutine has established**, with a value that none of the three has in hand. -/
theorem system_held {ok : World Shared Pc → Label Choice Time → Prop} {w : World Shared Pc}
    {α : Type} {f : Pc → Option α} {P : Shared → α → Prop}
    (hreader : f (.reader .top) = none) (hheartbeat : f (.heartbeat .loop) = none)
    (hidle : f .idle = none)
    (hkeep : ∀ w t s pc u a, system.Reach ok w → Acts w.shared (w.thr t) s pc →
      f (w.thr u) = some a → P w.shared a → P s a)
    (hnew : ∀ w t s pc a, system.Reach ok w → Acts w.shared (w.thr t) s pc → f pc = some a →
      f (w.thr t) = some a ∨ P s a)
    (htime : ∀ s d a, P s a → P { s with now := s.now + d } a)
    (h : system.Reach ok w) {t : ℕ} {a : α} (ht : f (w.thr t) = some a) : P w.shared a := by
  refine interleave_held ?_ ?_ ?_ ?_ h ht
  · rintro w t ⟨now, session, _, rfl⟩
    exact forall_startThreads (P := fun p => f p = none) hreader hheartbeat hidle t
  · intro w t c s pc u a hr hn
    exact hkeep w t s pc u a hr (next_cases hn)
  · intro w t c s pc a hr _ hn
    exact hnew w t s pc a hr (next_cases hn)
  · intro s d s' a he hp
    cases he
    exact htime s d a hp

/-! ### Who holds what -/

/-- The resources that a goroutine may hold while it waits for something else. -/
inductive Resource where
  | mu
  | ackMu
  | writeDeadlineMu
  | dialMu
  | permit
deriving DecidableEq, Repr

/-- The resource is free.  Before `sendOnce` there is no permit channel, and nobody holds its
token. -/
def Shared.free (s : Shared) : Resource → Bool
  | .mu => !s.locks.mu
  | .ackMu => !s.locks.ackMu
  | .writeDeadlineMu => !s.locks.writeDeadlineMu
  | .dialMu => !s.locks.dialMu
  | .permit => s.permit.token || !s.permit.once

/-- What the caller of `sendPacketFor` holds. -/
def SendCall.holds (k : SendCall) : Resource → Bool
  | .mu => match k with
    | closeDisc _ _ _ _ => true
    | _ => false
  | .ackMu => match k with
    | flush => true
    | _ => false
  | .dialMu => match k with
    | dial _ _ _ _ => true
    | _ => false
  | _ => false

/-- What `sendPacketFor` itself holds. -/
def SendPc.holds (p : SendPc) : Resource → Bool
  | .permit => match p with
    | enter => false
    | await => false
    | check => false
    | select _ _ => false
    | _ => true
  | .writeDeadlineMu => match p with
    | readDeadline => true
    | setDeadline _ _ => true
    | clearDeadline _ => true
    | _ => false
  | _ => false

/-- What the caller of `signalClosed` holds. -/
def SignalCall.holds (k : SignalCall) : Resource → Bool
  | .mu => match k with
    | close _ _ _ => true
    | _ => false
  | _ => false

/-- What `interruptWrite` itself holds. -/
def SignalPc.holds (p : SignalPc) : Resource → Bool
  | .writeDeadlineMu => match p with
    | interrupt => true
    | _ => false
  | _ => false

def ClosePc.holds (p : ClosePc) : Resource → Bool
  | .mu => match p with
    | enter => false
    | callback _ => false
    | _ => true
  | _ => false

def FlushPc.holds (p : FlushPc) : Resource → Bool
  | .ackMu => match p with
    | sent _ => true
    | lock => false
  | _ => false

def DialPc.holds (p : DialPc) : Resource → Bool
  | .dialMu => match p with
    | enter _ => false
    | lock _ => false
    | _ => true
  | _ => false

def DeadlinePc.holds (p : DeadlinePc) : Resource → Bool
  | .writeDeadlineMu => match p with
    | lock _ _ => false
    | _ => true
  | _ => false

/-- What a goroutine holds. -/
def Pc.holds : Pc → Resource → Bool
  | .send p k, r => p.holds r || k.holds r
  | .signal p _ k, r => p.holds r || k.holds r
  | .close p _, r => p.holds r
  | .flush p, r => p.holds r
  | .dial p, r => p.holds r
  | .deadline p, r => p.holds r
  | _, _ => false

/-- Inside `sendPacketFor`, after `sendOnce`. -/
def Pc.pastOnce : Pc → Bool
  | .send .enter _ => false
  | .send _ _ => true
  | _ => false

/-! ### Return points -/

/-- Where a goroutine goes on after a call has returned, or with a packet it has received. -/
inductive Resumes : Pc → Prop
  | idle : Resumes .idle
  | send (k : SendCall) : Resumes (.send .enter k)
  | closeSignal (todo ids : List (UInt32 × ConnId)) (k : CloseCall) :
      Resumes (.close (.signal todo ids) k)
  | closeDisc (ids : List (UInt32 × ConnId)) (k : CloseCall) : Resumes (.close (.disc ids) k)
  | readerTop : Resumes (.reader .top)
  | readerAck : Resumes (.reader .ack)
  | readerConn (realm : UInt32) : Resumes (.reader (.conn realm))
  | readerDisc (realm : UInt32) : Resumes (.reader (.disc realm))
  | readerLookup (realm : UInt32) (data : Bytes) : Resumes (.reader (.lookup realm data))
  | flushSent (e : Option SendError) : Resumes (.flush (.sent e))
  | heartbeatLoop : Resumes (.heartbeat .loop)
  | heartbeatStalled : Resumes (.heartbeat .stalled)
  | dialWait (port : UInt32) (a : ℕ) (id : UInt32) (c : ConnId) :
      Resumes (.dial (.wait port a id c))
  | dialDrop (port : UInt32) (a : ℕ) (id : UInt32) (c : ConnId) (why : Cleanup) :
      Resumes (.dial (.dropRealm port a id c why))
  | connCloseCheck (c : ConnId) : Resumes (.connClose (.check c))
  | connCloseRemove (c : ConnId) : Resumes (.connClose (.remove c))
  | writeLoop (c : ConnId) (n : ℕ) (rest : Bytes) : Resumes (.write (.loop c n rest))
  | writeRet (c : ConnId) (n : ℕ) (e : Option SendError) : Resumes (.write (.ret c n e))

@[simp] theorem Resumes.pastOnce {pc : Pc} (h : Resumes pc) : pc.pastOnce = false := by
  cases h <;> rfl

/-- Where `Tunnel.Close` returns to, and where the reader goes on with a packet: outside of the
methods that a user calls. -/
inductive Background : Pc → Prop
  | idle : Background .idle
  | heartbeat : Background (.heartbeat .loop)
  | top : Background (.reader .top)
  | sync : Background (.send .enter .readerSync)
  | conn (realm : UInt32) : Background (.reader (.conn realm))
  | disc (realm : UInt32) : Background (.reader (.disc realm))
  | lookup (realm : UInt32) (data : Bytes) : Background (.reader (.lookup realm data))
  | ack : Background (.reader .ack)

theorem Background.resumes {pc : Pc} (h : Background pc) : Resumes pc := by
  cases h <;> constructor

theorem Background.holds {pc : Pc} (h : Background pc) (r : Resource) : pc.holds r = false := by
  cases h <;> cases r <;> rfl

section returns
variable (k : SendCall) (e : Option SendError) (c : ConnId) (j : SignalCall) (l : CloseCall)
  (b : Body) (r : Resource)

/-- `sendPacketFor` returns into code that holds what its call site held. -/
@[simp] theorem SendCall.ret_holds : (k.ret e).holds r = k.holds r := by
  cases k <;> cases e <;> simp only [SendCall.ret] <;> (try split) <;> cases r <;> rfl

@[simp] theorem SendCall.ret_resumes : Resumes (k.ret e) := by
  cases k <;> cases e <;> simp only [SendCall.ret] <;> (try split) <;> constructor

theorem SendCall.written_cases :
    (∃ c, k.writer = some c ∧ k.written e = .send (.relockDeadline e) k) ∨
      (k.writer = none ∧ k.written e = .send (.release e) k) := by
  unfold SendCall.written
  cases hk : k.writer with
  | none => exact Or.inr ⟨rfl, rfl⟩
  | some c => exact Or.inl ⟨c, rfl, rfl⟩

@[simp] theorem SendCall.written_holds :
    (k.written e).holds r = (Pc.send (.release e) k).holds r := by
  rcases k.written_cases e with ⟨c, _, h⟩ | ⟨_, h⟩
  · rw [h]
    cases r <;> rfl
  · rw [h]

@[simp] theorem SignalCall.ret_holds : (j.ret c).holds r = j.holds r := by
  rcases j with _ | _ | _ | _ | _ <;> cases r <;> rfl

@[simp] theorem SignalCall.ret_resumes : Resumes (j.ret c) := by
  rcases j with _ | _ | _ | _ | _ <;> constructor

@[simp] theorem CloseCall.ret_background : Background l.ret := by
  cases l <;> constructor

@[simp] theorem CloseCall.ret_resumes : Resumes l.ret := l.ret_background.resumes

@[simp] theorem dispatch_background : Background (dispatch b) := by
  unfold dispatch
  split <;> (try split) <;> (try split) <;> constructor

@[simp] theorem dispatch_resumes : Resumes (dispatch b) := (dispatch_background b).resumes

end returns

/-! ### Exclusivity -/

variable {s s' : Shared} {pc pc' : Pc} {r : Resource}

theorem Local.holds_eq (h : Local s pc pc') (r : Resource) : pc'.holds r = pc.holds r := by
  cases h <;> cases r <;>
    first | rfl | exact SendCall.ret_holds _ _ _ | exact (CloseCall.ret_background _).holds _

/-- An action takes a resource only when it is free and gives back only what it holds.  The
permit channel exists once a goroutine is past `sendOnce`. -/
theorem Effect.move (h : Effect s pc s' pc') (honce : pc.pastOnce = true → s.permit.once = true)
    (r : Resource) : Move (s.free r) (pc.holds r) (s'.free r) (pc'.holds r) := by
  cases h with
  | sendOnce k hp _ | sendOnceWriter k _ hp _ =>
      cases r with
      | permit =>
          have hf : s.free .permit = true := by simp [Shared.free, hp]
          rw [hf]
          exact .keep true false
      | _ => exact .keep _ _
  | sendTake k htok | sendTakeWriter k _ _ _ _ htok =>
      cases r with
      | permit =>
          have hgone : (false || !s.permit.once) = false := by simp [honce rfl]
          change Move _ false (false || !s.permit.once) true
          rw [hgone]
          exact .take (by simp [Shared.free, htok])
      | _ => exact .keep _ _
  | sendGiveBack k _ | sendRelease k _ _ =>
      rw [SendCall.ret_holds]
      cases r with
      | permit => exact .give _
      | _ => exact .keep _ _
  | sendLockDeadline _ hfree | sendRelock _ _ hfree | signalLock _ _ hfree
  | deadlineLock _ _ hfree =>
      cases r with
      | writeDeadlineMu => exact .take (by simp [Shared.free, hfree])
      | _ => exact .keep _ _
  | sendSkip | sendSetDeadline | sendSetDeadlineError | sendClear | deadlineKeep
  | deadlineUpdate =>
      cases r with
      | writeDeadlineMu => exact .give _
      | _ => exact .keep _ _
  | signalInterrupt c k =>
      rw [SignalCall.ret_holds]
      cases r with
      | writeDeadlineMu => exact .give _
      | _ => exact .keep _ _
  | closeEnter _ hfree =>
      cases r with
      | mu => exact .take (by simp [Shared.free, hfree])
      | _ => exact .keep _ _
  | closeFinish =>
      cases r with
      | mu => exact .give _
      | _ => exact .keep _ _
  | flushLock hfree =>
      cases r with
      | ackMu => exact .take (by simp [Shared.free, hfree])
      | _ => exact .keep _ _
  | flushSent | flushClose =>
      cases r with
      | ackMu => exact .give _
      | _ => exact .keep _ _
  | dialLock _ hfree =>
      cases r with
      | dialMu => exact .take (by simp [Shared.free, hfree])
      | _ => exact .keep _ _
  | dialRet =>
      cases r with
      | dialMu => exact .give _
      | _ => exact .keep _ _
  | sendWriteOk | sendWriteFail | sendBlockedOk | sendBlockedFail =>
      rw [SendCall.written_holds]
      cases r <;> exact .keep _ _
  | closeCallback k =>
      rw [k.ret_background.holds]
      cases r <;> exact .keep _ _
  | readerCount q =>
      rw [(dispatch_background q.body).holds]
      cases r <;> exact .keep _ _
  | _ => cases r <;> exact .keep _ _

theorem Acts.move (h : Acts s pc s' pc') (honce : pc.pastOnce = true → s.permit.once = true)
    (r : Resource) : Move (s.free r) (pc.holds r) (s'.free r) (pc'.holds r) := by
  rcases h with ⟨rfl, h⟩ | h
  · rw [h.holds_eq r]
    exact .keep _ _
  · exact h.move honce r

/-- `sendOnce` runs before anything else in `sendPacketFor`, and is never undone. -/
theorem Acts.once (h : Acts s pc s' pc') (honce : pc.pastOnce = true → s.permit.once = true) :
    (s.permit.once = true → s'.permit.once = true) ∧
      (pc'.pastOnce = true → s'.permit.once = true) := by
  rcases h with ⟨rfl, h⟩ | h
  · refine ⟨id, fun hp => ?_⟩
    cases h with
    | sendEnter _ ho _ | sendEnterWriter _ _ ho _ => exact ho
    | sendCheckClosed | sendCheckExpired | sendSelectClosed | sendSelectDone | sendSelectTimeout =>
        simp at hp
    | closeAgain => simp at hp
    | sendCheck | sendSelectChanged | sendWonDone | sendWon | sendReadDeadline => exact honce rfl
    | _ => simp [Pc.pastOnce] at hp
  · cases h with
    | sendOnce | sendOnceWriter => exact ⟨fun _ => rfl, fun _ => rfl⟩
    | sendTake | sendTakeWriter | sendLockDeadline | sendSkip | sendSetDeadline
    | sendSetDeadlineError | sendBuild | sendWriteOk | sendWriteFail | sendWriteBlock
    | sendBlockedOk | sendBlockedFail | sendRelock | sendClear =>
        exact ⟨id, fun _ => honce rfl⟩
    | sendGiveBack | sendRelease | signalInterrupt | closeCallback | readerCount =>
        exact ⟨id, fun hp => by simp at hp⟩
    | _ => exact ⟨id, fun hp => by simp [Pc.pastOnce] at hp⟩

/-- Every goroutine past `sendOnce` finds the permit channel made. -/
theorem once_of_pastOnce {ok : World Shared Pc → Label Choice Time → Prop} {w : World Shared Pc}
    (h : system.Reach ok w) (t : ℕ) (ht : (w.thr t).pastOnce = true) :
    w.shared.permit.once = true := by
  revert t
  refine system_invariant (I := fun w => ∀ t, (w.thr t).pastOnce = true →
    w.shared.permit.once = true) ?_ ?_ ?_ h
  · intro now session _ t ht
    exact absurd ht (by
      simpa [start] using forall_startThreads (P := fun p => p.pastOnce = false) rfl rfl rfl t)
  · intro w t c s pc _ hi _ _ ha
    have hstep := ha.once (hi t)
    exact forall_update (P := fun _ (p : Pc) => p.pastOnce = true → s.permit.once = true) hstep.2
      fun u _ hu => hstep.1 (hi u hu)
  · intro w d _ hi
    exact hi

/-- **Exclusivity**: in every reachable state each mutex, and the send permit, is free and held
by nobody, or taken and held by exactly one goroutine. -/
theorem resource_exclusive {ok : World Shared Pc → Label Choice Time → Prop}
    {w : World Shared Pc} (h : system.Reach ok w) (r : Resource) :
    Exclusive (w.shared.free r) fun t => (w.thr t).holds r := by
  refine system_invariant (I := fun w => Exclusive (w.shared.free r) fun t => (w.thr t).holds r)
    ?_ ?_ ?_ h
  · intro now session _
    have hnone : ∀ t, (startThreads t).holds r = false :=
      forall_startThreads (P := fun p => p.holds r = false) (by cases r <;> rfl)
        (by cases r <;> rfl) (by cases r <;> rfl)
    have hfree : (start now session).shared.free r = true := by cases r <;> rfl
    rw [hfree]
    exact Exclusive.of_none hnone
  · intro w t c s pc hr hi _ _ ha
    exact Exclusive.update_thr (h := (Pc.holds · r)) hi (ha.move (once_of_pastOnce hr t) r)
  · intro w d _ hi
    cases r <;> exact hi

end DahuaP2p.Tunnel
