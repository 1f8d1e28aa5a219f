import DahuaP2p.TunnelRealms

/-! # The write deadline of the socket

A `Conn` that writes is the `activeWriter` as long as it has the socket (`active_writer`), and a
`Conn` that is closed while it writes has the socket's deadline set to the present, or the
`signalClosed` that closed it will do so (`interrupted`).  The argument rests on
`writeDeadlineMu`: whoever is about to set the deadline has read, under this lock, that the `Conn`
is open, so the `interruptWrite` of a later close still waits for the lock. -/

namespace DahuaP2p.Tunnel

open BigEndian Ptcp Threads

variable {s s' : Shared} {pc pc' : Pc} {c : ConnId} {w : World Shared Pc}
  {ok : World Shared Pc → Label Choice Time → Prop}

/-- The clock starts after the zero time. -/
theorem now_pos (h : system.Reach ok w) : 0 < w.shared.now := by
  refine system_invariant (I := fun w => 0 < w.shared.now) ?_ ?_ ?_ h
  · intro now session hnow
    exact hnow
  · intro w t ch s pc _ hi _ _ ha
    rcases ha with ⟨rfl, _⟩ | ha
    · exact hi
    · generalize w.thr t = p at ha
      cases ha <;> exact hi
  · intro w d _ hi
    exact Nat.add_pos_left hi d

/-! ### The active writer -/

def SendPc.active : SendPc → Bool
  | build => true
  | write _ => true
  | blocked _ => true
  | relockDeadline _ => true
  | clearDeadline _ => true
  | _ => false

/-- The `Conn` for which the goroutine has the socket. -/
def Pc.activeFor : Pc → Option ConnId
  | .send p k => if p.active then k.writer else none
  | _ => none

@[simp] theorem Resumes.activeFor (h : Resumes pc) : pc.activeFor = none := by
  cases h <;> rfl

@[simp] theorem SendCall.written_activeFor (k : SendCall) (e : Option SendError) :
    (k.written e).activeFor = k.writer := by
  rcases k.written_cases e with ⟨c, _, h⟩ | ⟨hk, h⟩
  · rw [h]
    rfl
  · rw [h, hk]
    rfl

theorem Pc.holds_of_activeFor (h : pc.activeFor = some c) : pc.holds .permit = true := by
  cases pc with
  | send p k =>
      cases p with
      | build | write | blocked | relockDeadline | clearDeadline => rfl
      | _ => cases h
  | _ => cases h

/-- Only the holder of the permit changes the active writer. -/
theorem Acts.activeWriter_of_not_permit (h : Acts s pc s' pc') (hn : pc.holds .permit = false) :
    s'.sock.activeWriter = s.sock.activeWriter := by
  rcases h with ⟨rfl, _⟩ | h
  · rfl
  · cases h with
    | sendSetDeadline | sendSetDeadlineError | sendClear => cases hn
    | signalInterrupt d k =>
        dsimp only
        split <;> rfl
    | _ => rfl

/-- A goroutine that gets the socket for a `Conn` makes it the active writer. -/
theorem Acts.activeFor (h : Acts s pc s' pc') (hw : pc.WriterOnly)
    (hp : ∀ c, pc.activeFor = some c → s.sock.activeWriter = some c)
    (hc : pc'.activeFor = some c) : s'.sock.activeWriter = some c := by
  rcases h with ⟨rfl, h⟩ | h
  · cases h with
    | sendCheckClosed | sendCheckExpired | sendSelectClosed | sendSelectDone | sendSelectTimeout
    | closeAgain => simp at hc
    | _ => cases hc
  · cases h with
    | sendTake k =>
        have hk : k.writer = some c := hc
        rw [hw.2 rfl] at hk
        cases hk
    | sendSetDeadline k d t hk =>
        have hc : k.writer = some c := hc
        rw [← hk]
        exact hc
    | sendWriteOk | sendWriteFail | sendBlockedOk | sendBlockedFail =>
        rw [SendCall.written_activeFor] at hc
        exact hp c hc
    | sendGiveBack | sendRelease | signalInterrupt | closeCallback | readerCount => simp at hc
    | sendBuild | sendWriteBlock | sendRelock => exact hp c hc
    | _ => cases hc

/-- **The active writer** is the `Conn` whose write has the socket. -/
theorem active_writer (h : system.Reach ok w) {t : ℕ} (ht : (w.thr t).activeFor = some c) :
    w.shared.sock.activeWriter = some c := by
  revert t c
  refine system_invariant (I := fun w => ∀ {c t}, (w.thr t).activeFor = some c →
    w.shared.sock.activeWriter = some c) ?_ ?_ ?_ h
  · intro now session _ c t ht
    have hnone := forall_startThreads (P := fun p => p.activeFor = none) rfl rfl rfl t
    have ht : (startThreads t).activeFor = some c := ht
    rw [hnone] at ht
    cases ht
  · intro w t ch s pc hr hi _ _ ha c u
    refine forall_update (P := fun _ (p : Pc) => p.activeFor = some c →
      s.sock.activeWriter = some c) ?_ ?_ u
    · exact ha.activeFor (writerOnly hr t) fun c => hi
    · intro v hv hvc
      have hn : (w.thr t).holds .permit = false := Bool.eq_false_iff.mpr fun ht =>
        hv ((resource_exclusive hr .permit).unique ht (Pc.holds_of_activeFor hvc))
      rw [ha.activeWriter_of_not_permit hn]
      exact hi hvc
  · intro w d _ hi c t ht
    exact hi ht

/-! ### Interrupting a write -/

/-- The `Conn` that the goroutine found open and whose deadline it is about to set. -/
def Pc.decided : Pc → Option ConnId
  | .send (.setDeadline false _) k => k.writer
  | .deadline (.update c _ false) => some c
  | _ => none

/-- The `Conn` whose `signalClosed` the goroutine runs. -/
def Pc.signals : Pc → Option ConnId
  | .signal _ c _ => some c
  | _ => none

/-- The same, before it has `writeDeadlineMu`. -/
def Pc.beforeInterrupt : Pc → Option ConnId
  | .signal .interrupt _ _ => none
  | .signal _ c _ => some c
  | _ => none

/-- The same, before it has closed `closeCh`. -/
def Pc.signalling : Pc → Option ConnId
  | .signal .setClosed c _ => some c
  | .signal .closeOnce c _ => some c
  | _ => none

theorem Pc.beforeInterrupt_of_signalling (h : pc.signalling = some c) :
    pc.beforeInterrupt = some c := by
  cases pc with
  | signal p d k =>
      cases p with
      | setClosed | closeOnce => exact h
      | _ => cases h
  | _ => cases h

theorem Pc.signals_of_beforeInterrupt (h : pc.beforeInterrupt = some c) :
    pc.signals = some c := by
  cases pc with
  | signal p d k =>
      cases p with
      | interrupt => cases h
      | _ => exact h
  | _ => cases h

theorem Pc.holds_of_decided (h : pc.decided = some c) : pc.holds .writeDeadlineMu = true := by
  cases pc with
  | send p k =>
      cases p with
      | setDeadline => rfl
      | _ => cases h
  | deadline p =>
      cases p with
      | update => rfl
      | _ => cases h
  | _ => cases h

@[simp] theorem Resumes.decided (h : Resumes pc) : pc.decided = none := by
  cases h <;> rfl

@[simp] theorem SendCall.written_decided (k : SendCall) (e : Option SendError) :
    (k.written e).decided = none := by
  rcases k.written_cases e with ⟨_, _, h⟩ | ⟨_, h⟩ <;> rw [h] <;> rfl

/-- The decision is made when the `Conn` is open. -/
theorem Acts.decided (h : Acts s pc s' pc') (hd : pc'.decided = some c) :
    s' = s ∧ (s.table.conns c).closed = false := by
  rcases h with ⟨rfl, h⟩ | h
  · refine ⟨rfl, ?_⟩
    cases h with
    | sendReadDeadline k d hk =>
        cases hcl : (s'.table.conns d).closed with
        | true =>
            rw [hcl] at hd
            cases hd
        | false =>
            rw [hcl] at hd
            have hkc : k.writer = some c := hd
            rw [hk] at hkc
            cases hkc
            exact hcl
    | deadlineRead d t =>
        cases hcl : (s'.table.conns d).closed with
        | true =>
            rw [hcl] at hd
            cases hd
        | false =>
            rw [hcl] at hd
            cases hd
            exact hcl
    | sendCheckClosed | sendCheckExpired | sendSelectClosed | sendSelectDone | sendSelectTimeout
    | closeAgain => simp at hd
    | _ => cases hd
  · cases h with
    | sendGiveBack | sendRelease | signalInterrupt | closeCallback | readerCount => simp at hd
    | sendWriteOk | sendWriteFail | sendBlockedOk | sendBlockedFail =>
        rw [SendCall.written_decided] at hd
        cases hd
    | _ => cases hd

/-- Whoever closes a `Conn` goes on to close its channel and to interrupt its write. -/
theorem Acts.closes (h : Acts s pc s' pc') (hc : (s'.table.conns c).closed = true) :
    (s.table.conns c).closed = true ∨ pc'.signalling = some c := by
  have hset : ∀ (d : ConnId) (cn : Conn), cn.closed = (s.table.conns d).closed →
      ((s.table.setConn d cn).conns c).closed = (s.table.conns c).closed :=
    fun d cn hcn => s.table.setConn_field d c cn Conn.closed hcn
  rcases h with ⟨rfl, _⟩ | h
  · exact Or.inl hc
  · cases h with
    | setDeadline d t =>
        rw [Shared.setWriteDeadline_field _ _ _ _ Conn.closed fun _ _ _ => rfl,
          Shared.setReadDeadline_field _ _ _ _ Conn.closed fun _ _ _ => rfl] at hc
        exact Or.inl hc
    | setReadDeadline d t =>
        rw [Shared.setReadDeadline_field _ _ _ _ Conn.closed fun _ _ _ => rfl] at hc
        exact Or.inl hc
    | setWriteDeadline d t =>
        rw [Shared.setWriteDeadline_field _ _ _ _ Conn.closed fun _ _ _ => rfl] at hc
        exact Or.inl hc
    | signalCloseCh d | readerConn _ d | readerEnqueue _ d | dialGranted _ _ _ d | readBuffered d
    | readDrained d | readData d | readCopy d =>
        exact Or.inl ((hset d _ (by rfl)).symm.trans hc)
    | signalSetClosed d | connCloseEnter d =>
        by_cases hd : c = d
        · rw [hd]
          exact Or.inr rfl
        · rw [Table.setConn_conns_of_ne _ _ _ _ hd] at hc
          exact Or.inl hc
    | dialInstall port a id m =>
        by_cases hd : c = s.table.connCount
        · subst hd
          simp [Table.install_conns_self] at hc
        · simp only [Table.install, Function.update_of_ne hd] at hc
          exact Or.inl hc
    | _ => exact Or.inl hc

/-- `signalClosed` goes on until it interrupts the write. -/
theorem Acts.signals (h : Acts s pc s' pc') (hp : pc.signals = some c) :
    pc'.signals = some c ∨ ∃ k, pc = .signal .interrupt c k := by
  rcases h with ⟨rfl, h⟩ | h
  · cases h with
    | signalOnce => exact Or.inl hp
    | _ => cases hp
  · cases h with
    | signalSetClosed | signalCloseCh | signalLock => exact Or.inl hp
    | signalInterrupt d k =>
        cases hp
        exact Or.inr ⟨k, rfl⟩
    | _ => cases hp

theorem Acts.beforeInterrupt (h : Acts s pc s' pc') (hp : pc.beforeInterrupt = some c) :
    pc'.beforeInterrupt = some c ∨ s.free .writeDeadlineMu = true := by
  rcases h with ⟨rfl, h⟩ | h
  · cases h with
    | signalOnce => exact Or.inl hp
    | _ => cases hp
  · cases h with
    | signalSetClosed | signalCloseCh => exact Or.inl hp
    | signalLock d k hfree => exact Or.inr (by simp [Shared.free, hfree])
    | _ => cases hp

/-- Who changes the deadline of the active writer: a goroutine that decided to, or
`interruptWrite`. -/
theorem Acts.sock (h : Acts s pc s' pc') (hw : s'.sock.activeWriter = some c) :
    pc.decided = some c ∨ s.sock.activeWriter = some c ∧
      (s'.sock = s.sock ∧ (∀ k, pc ≠ .signal .interrupt c k) ∨ s'.sock.writeDeadline = s'.now) := by
  rcases h with ⟨rfl, h⟩ | h
  · refine Or.inr ⟨hw, Or.inl ⟨rfl, fun k hk => ?_⟩⟩
    subst hk
    cases h
  · cases h with
    | sendSetDeadline k d t hk => exact Or.inl (hk.trans hw)
    | sendSetDeadlineError | sendClear => cases hw
    | signalInterrupt d k =>
        by_cases hd : s.sock.activeWriter = some d
        · simp only [hd, if_true, Option.some.injEq] at hw
          subst hw
          exact Or.inr ⟨hd, Or.inr (by simp [hd])⟩
        · simp only [hd, if_false] at hw
          refine Or.inr ⟨hw, Or.inl ⟨if_neg hd, fun k hk => ?_⟩⟩
          cases hk
          exact hd hw
    | deadlineUpdate d t hd => exact Or.inl (hd.symm.trans hw)
    | _ => exact Or.inr ⟨hw, Or.inl ⟨rfl, fun k hk => by cases hk⟩⟩

/-- A `Conn` that was closed under a decision to set its deadline, or while it writes, will be
interrupted or has been. -/
structure Interrupts (w : World Shared Pc) : Prop where
  decided : ∀ t c, (w.thr t).decided = some c → (w.shared.table.conns c).closed = true →
    ∃ u, (w.thr u).beforeInterrupt = some c
  active : ∀ c, w.shared.sock.activeWriter = some c → (w.shared.table.conns c).closed = true →
    Expired w.shared.sock.writeDeadline w.shared.now ∨ ∃ u, (w.thr u).signals = some c

section step
variable {t : ℕ}

/-- A pending interrupt stays pending, as long as another goroutine has `writeDeadlineMu`. -/
theorem Interrupts.pending_stays (hi : Interrupts w) (hr : system.Reach ok w)
    (ha : Acts w.shared (w.thr t) s pc) {u : ℕ} {c : ConnId} (hd : (w.thr u).decided = some c)
    (hc : (w.shared.table.conns c).closed = true) :
    ∃ v, (Function.update w.thr t pc v).beforeInterrupt = some c := by
  obtain ⟨v, hv⟩ := hi.decided u c hd hc
  by_cases hvt : v = t
  · subst hvt
    rcases ha.beforeInterrupt hv with hp | hfree
    · exact exists_update_self hp
    · have htaken := (resource_exclusive hr .writeDeadlineMu).not_free (Pc.holds_of_decided hd)
      rw [htaken] at hfree
      cases hfree
  · exact exists_update hvt hv

theorem Interrupts.step_decided (hi : Interrupts w) (hr : system.Reach ok w)
    (ha : Acts w.shared (w.thr t) s pc) (u : ℕ) (c : ConnId) :
    (Function.update w.thr t pc u).decided = some c → (s.table.conns c).closed = true →
      ∃ v, (Function.update w.thr t pc v).beforeInterrupt = some c := by
  refine forall_update (P := fun _ (p : Pc) => p.decided = some c →
    (s.table.conns c).closed = true →
    ∃ v, (Function.update w.thr t pc v).beforeInterrupt = some c) ?_ ?_ u
  · intro hd hc
    obtain ⟨rfl, hopen⟩ := ha.decided hd
    rw [hopen] at hc
    cases hc
  · intro u _ hd hc
    rcases ha.closes hc with hold | hnew
    · exact hi.pending_stays hr ha hd hold
    · exact exists_update_self (Pc.beforeInterrupt_of_signalling hnew)

theorem Pc.beforeInterrupt_none_of_decided {c : ConnId} (h : pc.decided = some c) :
    pc.beforeInterrupt = none := by
  cases pc with
  | signal => cases h
  | _ => rfl

/-- An action on the socket of a closed active writer sets a deadline that has passed, or leaves the
one that is there, or its goroutine has decided before another one will interrupt. -/
theorem Interrupts.step_active (hi : Interrupts w) (hr : system.Reach ok w)
    (ha : Acts w.shared (w.thr t) s pc) {c : ConnId} (hw : s.sock.activeWriter = some c)
    (hc : (s.table.conns c).closed = true) :
    Expired s.sock.writeDeadline s.now ∨ ∃ u, (Function.update w.thr t pc u).signals = some c := by
  rcases ha.closes hc with hold | hnew
  · rcases ha.sock hw with hd | ⟨hw₀, ⟨hsame, hnot⟩ | hpast⟩
    · obtain ⟨v, hv⟩ := hi.decided t c hd hold
      have hvt : v ≠ t := by
        rintro rfl
        rw [Pc.beforeInterrupt_none_of_decided hd] at hv
        cases hv
      exact Or.inr (exists_update hvt (Pc.signals_of_beforeInterrupt hv))
    · rcases hi.active c hw₀ hold with he | ⟨v, hv⟩
      · left
        rw [hsame, ha.now_eq]
        exact he
      · by_cases hvt : v = t
        · subst hvt
          rcases ha.signals hv with hp | ⟨k, hk⟩
          · exact Or.inr (exists_update_self hp)
          · exact absurd hk (hnot k)
        · exact Or.inr (exists_update hvt hv)
    · left
      have hpos := now_pos hr
      rw [← ha.now_eq] at hpos
      exact ⟨by rw [hpast]; exact hpos.ne', hpast.le⟩
  · have hbefore := Pc.beforeInterrupt_of_signalling hnew
    exact Or.inr (exists_update_self (Pc.signals_of_beforeInterrupt hbefore))

end step

/-- **Interrupted writes.** -/
theorem interrupted (h : system.Reach ok w) : Interrupts w := by
  refine system_invariant (I := Interrupts) ?_ ?_ ?_ h
  · intro now session _
    exact ⟨fun t c _ hc => (nomatch hc), fun c hc => (nomatch hc)⟩
  · intro w t ch s pc hr hi _ _ ha
    exact ⟨hi.step_decided hr ha, fun c hw hc => hi.step_active hr ha hw hc⟩
  · intro w d _ hi
    refine ⟨hi.decided, fun c hw hc => ?_⟩
    rcases hi.active c hw hc with he | hs
    · exact Or.inl ⟨he.1, he.2.trans (Nat.le_add_right _ _)⟩
    · exact Or.inr hs

end DahuaP2p.Tunnel
