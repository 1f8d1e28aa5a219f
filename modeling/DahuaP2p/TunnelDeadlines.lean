import DahuaP2p.TunnelInterrupt

/-! # Whose deadline is on the socket

One write deadline of the UDP socket serves all realms.

* It is set only while a `Conn` is the `activeWriter`, which then holds the send permit; as soon as
  nobody is, there is no deadline (`quiet_socket`).  So a control packet is never under a deadline,
  and a payload is under the deadline of its own `Conn`.
* Only the active writer's own setters and `interruptWrite` change the deadline (`Acts.deadline`).
* Once `interruptWrite` has set it to the present, it stays in the past until the write ends: a
  setter that could undo this has read, under `writeDeadlineMu`, that the `Conn` is open
  (`Interrupted`). -/

namespace DahuaP2p.Tunnel

open BigEndian Ptcp Threads

variable {s s' : Shared} {pc pc' : Pc} {c : ConnId} {w w' : World Shared Pc}
  {ok : World Shared Pc → Label Choice Time → Prop}

/-! ### Without an active writer there is no deadline -/

/-- A goroutine leaves the socket as it is without a writer. -/
theorem Acts.activeFor_lost (h : Acts s pc s' pc') (hp : pc.activeFor ≠ none)
    (hp' : pc'.activeFor = none) : s'.sock = {} := by
  rcases h with ⟨rfl, h⟩ | h
  · cases h <;> exact absurd rfl hp
  · cases h with
    | sendClear => rfl
    | sendBuild | sendWriteBlock | sendRelock => exact absurd hp' hp
    | sendWriteOk | sendWriteFail | sendBlockedOk | sendBlockedFail =>
        rw [SendCall.written_activeFor] at hp'
        exact absurd hp' hp
    | _ => exact absurd rfl hp

/-- Without a writer, only a goroutine that gets the socket changes it. -/
theorem Acts.sock_quiet (h : Acts s pc s' pc') (hs : s.sock = {}) (hp' : pc'.activeFor = none) :
    s'.sock = {} := by
  rcases h with ⟨rfl, _⟩ | h
  · exact hs
  · cases h with
    | sendSetDeadline k d t hk =>
        have hp' : k.writer = none := hp'
        rw [hk] at hp'
        cases hp'
    | sendSetDeadlineError => simp [hs]
    | sendClear => rfl
    | signalInterrupt d => simp [hs]
    | deadlineUpdate d t hd =>
        rw [hs] at hd
        cases hd
    | _ => exact hs

/-- When no write has the socket, it has no active writer and no deadline. -/
theorem quiet_socket (h : system.Reach ok w) (hnone : ∀ t, (w.thr t).activeFor = none) :
    w.shared.sock = {} := by
  revert hnone
  refine system_invariant (I := fun w => (∀ t, (w.thr t).activeFor = none) →
    w.shared.sock = {}) ?_ ?_ ?_ h
  · intro now session _ _
    rfl
  · intro w t ch s pc _ hi _ _ ha hnone
    have hself : pc.activeFor = none := by simpa using hnone t
    by_cases ht : (w.thr t).activeFor = none
    · refine ha.sock_quiet (hi fun u => ?_) hself
      by_cases hu : u = t
      · rw [hu]
        exact ht
      · simpa [Function.update_of_ne hu] using hnone u
    · exact ha.activeFor_lost ht hself
  · intro w d _ hi hnone
    exact hi hnone

/-- A deadline is that of a `Conn` whose write has the socket. -/
theorem active_of_deadline (h : system.Reach ok w) (hd : w.shared.sock.writeDeadline ≠ 0) :
    ∃ t c, (w.thr t).activeFor = some c ∧ (w.thr t).holds .permit = true ∧
      w.shared.sock.activeWriter = some c := by
  by_contra hno
  refine hd ?_
  rw [quiet_socket h fun t => ?_]
  by_contra hne
  obtain ⟨c, hc⟩ := Option.ne_none_iff_exists'.mp hne
  exact hno ⟨t, c, hc, Pc.holds_of_activeFor hc, active_writer h hc⟩

/-- A UDP write without a writer is under no deadline. -/
theorem control_without_deadline (h : system.Reach ok w) {t : ℕ} {p : SendPc} {k : SendCall}
    (ht : w.thr t = .send p k) (hp : p.Writes) (hk : k.writer = none) :
    w.shared.sock.writeDeadline = 0 := by
  by_contra hd
  obtain ⟨u, c, hu, hpermit, _⟩ := active_of_deadline h hd
  have hself : (w.thr t).holds .permit = true := by
    rw [ht]
    obtain ⟨q, rfl | rfl⟩ := hp <;> rfl
  have hut := (resource_exclusive h .permit).unique hself hpermit
  rw [hut, ht] at hu
  obtain ⟨q, rfl | rfl⟩ := hp
  · have hu : k.writer = some c := hu
    rw [hk] at hu
    cases hu
  · have hu : k.writer = some c := hu
    rw [hk] at hu
    cases hu

/-- A UDP write of a `Conn` is under the deadline of that `Conn`. -/
theorem writer_is_active (h : system.Reach ok w) {t : ℕ} {p : SendPc} {k : SendCall}
    (ht : w.thr t = .send p k) (hp : p.Writes) (hk : k.writer = some c) :
    w.shared.sock.activeWriter = some c := by
  refine active_writer h (t := t) ?_
  rw [ht]
  obtain ⟨q, rfl | rfl⟩ := hp <;> exact hk

/-! ### Who changes the deadline -/

/-- The `Conn` for which the goroutine is about to set the deadline of the socket. -/
def Pc.setsDeadline : Pc → Option ConnId
  | .send (.setDeadline _ _) k => k.writer
  | .deadline (.update c _ _) => some c
  | .signal .interrupt c _ => some c
  | _ => none

/-- The deadline is changed for the active writer, or cleared. -/
theorem Acts.deadline (h : Acts s pc s' pc') :
    s'.sock.writeDeadline = s.sock.writeDeadline ∨ s'.sock.writeDeadline = 0 ∨
      ∃ c, pc.setsDeadline = some c ∧ s'.sock.activeWriter = some c := by
  rcases h with ⟨rfl, _⟩ | h
  · exact Or.inl rfl
  · cases h with
    | sendSetDeadline k d t hk => exact Or.inr (Or.inr ⟨d, hk, rfl⟩)
    | sendClear => exact Or.inr (Or.inl rfl)
    | signalInterrupt d =>
        by_cases hd : s.sock.activeWriter = some d
        · exact Or.inr (Or.inr ⟨d, rfl, by simp [hd]⟩)
        · exact Or.inl (by simp [hd])
    | deadlineUpdate d t hd => exact Or.inr (Or.inr ⟨d, rfl, hd⟩)
    | _ => exact Or.inl rfl

/-! ### An interruption lasts -/

/-- The `Conn` is closed and nobody is about to set its deadline as if it were open; if it writes,
the deadline has passed. -/
structure Interrupted (c : ConnId) (w : World Shared Pc) : Prop where
  reachable : system.Reachable w
  made : c < w.shared.table.connCount
  closed : (w.shared.table.conns c).closed = true
  undecided : ∀ t, (w.thr t).decided ≠ some c
  expired : w.shared.sock.activeWriter = some c →
    Expired w.shared.sock.writeDeadline w.shared.now

theorem Interrupted.step {l : Label Choice Time} (hi : Interrupted c w)
    (h : system.step w l = some w') : Interrupted c w' := by
  have hr := hi.reachable.step h
  rcases system_step_cases h with ⟨t, ch, s, pc, rfl, _, ha, rfl⟩ | ⟨d, rfl, rfl⟩
  · refine ⟨hr, hi.made.trans_le ha.extends.count, ha.closed_mono hi.made hi.closed, ?_, ?_⟩
    · refine forall_update (P := fun _ (p : Pc) => p.decided ≠ some c) (fun hd => ?_)
        fun u _ => hi.undecided u
      have hopen := (ha.decided hd).2
      rw [hi.closed] at hopen
      cases hopen
    · intro hw
      rcases ha.sock hw with hd | ⟨hw₀, ⟨hsame, _⟩ | hpast⟩
      · exact absurd hd (hi.undecided t)
      · have he := hi.expired hw₀
        rw [hsame, ha.now_eq]
        exact he
      · have hpos := now_pos hr
        exact ⟨by rw [hpast]; exact hpos.ne', hpast.le⟩
  · refine ⟨hr, hi.made, hi.closed, hi.undecided, fun hw => ?_⟩
    have he := hi.expired hw
    exact ⟨he.1, he.2.trans (Nat.le_add_right _ _)⟩

/-- The `Conn` whose closed flag the goroutine has set in `signalClosed`. -/
def Pc.flagged : Pc → Option ConnId
  | .signal .setClosed _ _ => none
  | .signal _ c _ => some c
  | _ => none

@[simp] theorem Resumes.flagged (h : Resumes pc) : pc.flagged = none := by
  cases h <;> rfl

theorem Acts.flagged (h : Acts s pc s' pc') (hc : pc'.flagged = some c) :
    pc.flagged = some c ∨ (s'.table.conns c).closed = true := by
  rcases h with ⟨rfl, h⟩ | h
  · cases h with
    | signalOnce => exact Or.inl hc
    | sendCheckClosed | sendCheckExpired | sendSelectClosed | sendSelectDone
    | sendSelectTimeout | closeAgain =>
        rw [Resumes.flagged (by simp)] at hc
        cases hc
    | _ => cases hc
  · cases h with
    | signalSetClosed d =>
        cases hc
        exact Or.inr (by simp)
    | signalCloseCh | signalLock => exact Or.inl hc
    | sendWriteOk k | sendWriteFail k | sendBlockedOk k | sendBlockedFail k =>
        rcases k.written_cases _ with ⟨_, _, hk⟩ | ⟨_, hk⟩ <;> rw [hk] at hc <;> cases hc
    | sendGiveBack | sendRelease | signalInterrupt | closeCallback | readerCount =>
        rw [Resumes.flagged (by simp)] at hc
        cases hc
    | _ => cases hc

theorem Pc.Scoped.of_flagged (h : pc.Scoped s) (hc : pc.flagged = some c) :
    c < s.table.connCount := by
  cases pc with
  | signal p d k =>
      cases p with
      | setClosed => cases hc
      | _ =>
          cases hc
          exact h.1
  | _ => cases hc

/-- Past its first step, `signalClosed` works on a closed `Conn`. -/
theorem closed_of_flagged (h : system.Reach ok w) {t : ℕ} (ht : (w.thr t).flagged = some c) :
    (w.shared.table.conns c).closed = true := by
  refine system_held (f := Pc.flagged) (P := fun s c => (s.table.conns c).closed = true)
    rfl rfl rfl ?_ ?_ (fun _ _ _ hcl => hcl) h ht
  · intro w t s pc u c hr ha hu hcl
    exact ha.closed_mono (Pc.Scoped.of_flagged ((scope hr).thr u) hu) hcl
  · intro w t s pc c _ ha hc
    exact ha.flagged hc

/-- `interruptWrite` interrupts. -/
theorem Interrupted.of_interrupt (h : system.Reachable w) {t : ℕ} {ch : Choice} {k : SignalCall}
    (ht : w.thr t = .signal .interrupt c k) (hs : system.step w (.thread t ch) = some w') :
    Interrupted c w' := by
  have hr := h.step hs
  have hflag : (w.thr t).flagged = some c := by rw [ht]; rfl
  have hmade := Pc.Scoped.of_flagged ((scope h).thr t) hflag
  have hmu : (w.thr t).holds .writeDeadlineMu = true := by rw [ht]; rfl
  rcases system_step_cases hs with ⟨u, ch, s, pc, hl, _, ha, rfl⟩ | ⟨d, hl, _⟩
  · cases hl
    refine ⟨hr, hmade.trans_le ha.extends.count, ha.closed_mono hmade (closed_of_flagged h hflag),
      ?_, ?_⟩
    · -- a goroutine that has read the flag holds `writeDeadlineMu`, as this one does
      refine forall_update (P := fun _ (p : Pc) => p.decided ≠ some c) (fun hd => ?_)
        fun u hut hd => hut ((resource_exclusive h .writeDeadlineMu).unique hmu
          (Pc.holds_of_decided hd))
      have hopen := (ha.decided hd).2
      rw [closed_of_flagged h hflag] at hopen
      cases hopen
    · intro hw
      rcases ha.sock hw with hd | ⟨_, ⟨_, hnot⟩ | hpast⟩
      · rw [ht] at hd
        cases hd
      · exact absurd ht (hnot k)
      · exact ⟨by rw [hpast]; exact (now_pos hr).ne', hpast.le⟩
  · cases hl

/-- **The write deadline of the socket.**  In every reachable state:
a deadline is that of the `Conn` whose write has the permit; control packets are written without
one, payloads under that of their own `Conn`; it is set for the active writer only.  A closed
active writer has an expired deadline, or its interruption is pending; once it has been
interrupted, its deadline stays expired whatever happens before the write ends. -/
theorem write_deadline_isolated (h : system.Reachable w) :
    (w.shared.sock.writeDeadline ≠ 0 → ∃ t c, (w.thr t).activeFor = some c ∧
      (w.thr t).holds .permit = true ∧ w.shared.sock.activeWriter = some c) ∧
    (∀ t p k, w.thr t = .send p k → p.Writes →
      (k.writer = none → w.shared.sock.writeDeadline = 0) ∧
      ∀ c, k.writer = some c → w.shared.sock.activeWriter = some c) ∧
    (∀ l w', system.step w l = some w' →
      w'.shared.sock.writeDeadline = w.shared.sock.writeDeadline ∨
      w'.shared.sock.writeDeadline = 0 ∨
      ∃ t ch c, l = .thread t ch ∧ (w.thr t).setsDeadline = some c ∧
        w'.shared.sock.activeWriter = some c) ∧
    (∀ c, w.shared.sock.activeWriter = some c → (w.shared.table.conns c).closed = true →
      Expired w.shared.sock.writeDeadline w.shared.now ∨ ∃ t, (w.thr t).signals = some c) ∧
    ∀ c t k ch w', w.thr t = .signal .interrupt c k →
      system.step w (.thread t ch) = some w' →
      ∀ ls w'', system.exec (fun _ _ => True) w' ls = some w'' →
        w''.shared.sock.activeWriter = some c →
        Expired w''.shared.sock.writeDeadline w''.shared.now := by
  refine ⟨active_of_deadline h, fun t p k ht hp => ⟨control_without_deadline h ht hp,
    fun c => writer_is_active h ht hp⟩, fun l w' hs => ?_, (interrupted h).active, ?_⟩
  · rcases system_step_cases hs with ⟨t, ch, s, pc, rfl, _, ha, rfl⟩ | ⟨d, rfl, rfl⟩
    · rcases ha.deadline with he | he | ⟨c, hc, hw⟩
      · exact Or.inl he
      · exact Or.inr (Or.inl he)
      · exact Or.inr (Or.inr ⟨t, ch, c, rfl, hc, hw⟩)
    · exact Or.inl rfl
  · intro c t k ch w' ht hs ls w'' he
    have hi := System.exec_preserves (P := Interrupted c) (fun _ _ _ hi => hi.step)
      (Interrupted.of_interrupt h ht hs) he
    exact hi.expired

/-- A `Write` is blocked in the socket and `Close` is about to interrupt it. -/
def interruptScript : List (Label Choice Time) :=
  blockedScript ++ acts 4 (.call (.connClose 0) :: gos 4)

/-- A deadline set after the interruption, far in the future, does not undo it. -/
theorem write_deadline_isolated_interruptScript :
    ∃ w w' w'', system.exec (fun _ _ => True) (start 1 newSession) interruptScript = some w ∧
      w.thr 4 = .signal .interrupt 0 (.connClose false) ∧
      system.step w (.thread 4 .go) = some w' ∧
      system.exec (fun _ _ => True) w'
        (.env 3 :: acts 5 (.call (.setWriteDeadline 0 100) :: gos 2 ++ [.udp .ok])) = some w'' ∧
      w''.shared.sock.activeWriter = some 0 ∧
      Expired w''.shared.sock.writeDeadline w''.shared.now := by
  have hrun : (system.exec (fun _ _ => True) (start 1 newSession) interruptScript).bind (fun w =>
      (system.step w (.thread 4 .go)).bind fun w' =>
        (system.exec (fun _ _ => True) w'
          (.env 3 :: acts 5 (.call (.setWriteDeadline 0 100) :: gos 2 ++ [.udp .ok]))).map
            fun w'' => (w.thr 4, w''.shared.sock.activeWriter)) =
      some (.signal .interrupt 0 (.connClose false), some 0) := by
    decide +kernel
  obtain ⟨w, hw, hrun⟩ := Option.bind_eq_some_iff.mp hrun
  obtain ⟨w', hw', hrun⟩ := Option.bind_eq_some_iff.mp hrun
  obtain ⟨w'', hw'', he⟩ := Option.map_eq_some_iff.mp hrun
  obtain ⟨h₄, hactive⟩ := Prod.mk.inj he
  have hr : system.Reachable w := reach_of_exec (by decide) hw
  exact ⟨w, w', w'', hw, h₄, hw', hw'', hactive,
    (write_deadline_isolated hr).2.2.2.2 0 4 _ .go w' h₄ hw' _ w'' hw'' hactive⟩

end DahuaP2p.Tunnel
