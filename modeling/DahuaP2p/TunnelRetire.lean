import DahuaP2p.TunnelWriters

/-! # A retired tunnel

`Retire` sets a flag that `Dial` looks at twice: before it waits for `dialMu`, and again when it has
it.  A `Dial` that is past the second look makes up to three BIND attempts without looking again.

* `Pc.bindsLeft` is how many BINDs a `Dial` may still transmit.  On a retired tunnel nobody gets
  more of them (`Acts.binds_le`), and only the goroutine with `dialMu` has any.
* `retired_drains`: after `Retire` at most three more BINDs are transmitted and at most one more
  `Conn` is returned, in every run.  If no `Dial` is in its attempts, there are none. -/

namespace DahuaP2p.Tunnel

open BigEndian Ptcp Threads

variable {s s' : Shared} {pc pc' : Pc} {w w' w₀ : World Shared Pc} {ch : Choice} {t : ℕ}

/-- The BINDs transmitted so far. -/
def Shared.binds (s : Shared) : ℕ := s.hist.transmitted.countP fun p => p.body.type = .bind

/-! ### Attempts -/

def DialPc.bindsLeft : DialPc → ℕ
  | draw _ a => maxRetries - (a + 1) + 1
  | install _ a _ => maxRetries - (a + 1) + 1
  | register _ a _ _ => maxRetries - (a + 1) + 1
  | wait _ a _ _ => maxRetries - (a + 1)
  | dropRealm _ a _ _ .retry => maxRetries - (a + 1)
  | dropConnCh _ a _ _ .retry => maxRetries - (a + 1)
  | _ => 0

/-- The BINDs that the goroutine may still transmit without another look at the flag. -/
def Pc.bindsLeft : Pc → ℕ
  | .send p (.dial _ a _ _) => maxRetries - (a + 1) + if p.outcome.isNone then 1 else 0
  | .dial p => p.bindsLeft
  | _ => 0

/-- `Dial` is in its attempts. -/
def Pc.attempting : Pc → Bool
  | .send _ (.dial _ _ _ _) => true
  | .dial (.draw _ _) => true
  | .dial (.install _ _ _) => true
  | .dial (.register _ _ _ _) => true
  | .dial (.wait _ _ _ _) => true
  | .dial (.dropRealm _ _ _ _ _) => true
  | .dial (.dropConnCh _ _ _ _ _) => true
  | _ => false

theorem Pc.bindsLeft_le (pc : Pc) : pc.bindsLeft ≤ maxRetries := by
  unfold Pc.bindsLeft
  split
  · have hmax : 1 ≤ maxRetries := by decide
    split <;> omega
  · unfold DialPc.bindsLeft
    have hmax : 1 ≤ maxRetries := by decide
    split <;> omega
  · exact Nat.zero_le _

theorem Pc.holds_of_attempting (h : pc.attempting = true) : pc.holds .dialMu = true := by
  cases pc with
  | send p k =>
      cases k with
      | dial => simp [Pc.holds, SendCall.holds]
      | _ => cases h
  | dial p =>
      cases p with
      | draw | install | register | wait | dropRealm | dropConnCh => rfl
      | _ => cases h
  | _ => cases h

theorem Pc.bindsLeft_of_not_attempting (h : pc.attempting = false) : pc.bindsLeft = 0 := by
  cases pc with
  | send p k =>
      cases k with
      | dial => cases h
      | _ => rfl
  | dial p =>
      cases p with
      | draw | install | register | wait | dropRealm | dropConnCh => cases h
      | _ => rfl
  | _ => rfl

theorem Pc.attempting_send (p : SendPc) (k : SendCall) :
    (Pc.send p k).attempting = k.binds.isSome := by
  cases k <;> rfl

/-- Inside `sendPacketFor`, from `p` to `p'`. -/
theorem Pc.send_attempts {p p' : SendPc} {k : SendCall} (hp : (Pc.send p' k).attempting = true)
    (hout : p'.outcome.isNone = true → p.outcome.isNone = true) :
    (Pc.send p k).attempting = true ∧ (Pc.send p' k).bindsLeft ≤ (Pc.send p k).bindsLeft := by
  refine ⟨(Pc.attempting_send p k).trans ((Pc.attempting_send p' k).symm.trans hp), ?_⟩
  cases k with
  | dial port a id c =>
      simp only [Pc.bindsLeft]
      split
      · rename_i hnone
        rw [if_pos (hout hnone)]
      · exact Nat.le_add_right _ _
  | _ => exact le_rfl

section returns
variable (k : SendCall) (e : Option SendError)

theorem SendCall.ret_attempting : (k.ret e).attempting = k.binds.isSome := by
  cases k <;> cases e <;> simp only [SendCall.ret] <;> (try split) <;> rfl

theorem SendCall.ret_bindsLeft {p : SendPc} : (k.ret e).bindsLeft ≤ (Pc.send p k).bindsLeft := by
  cases k with
  | dial port a id c => cases e <;> simp [SendCall.ret, Pc.bindsLeft, DialPc.bindsLeft]
  | _ =>
      rw [Pc.bindsLeft_of_not_attempting (by rw [SendCall.ret_attempting]; rfl)]
      exact Nat.zero_le _

end returns

theorem Background.attempting (h : Background pc) : pc.attempting = false := by
  cases h <;> rfl

theorem SignalCall.ret_attempting (j : SignalCall) (c : ConnId) : (j.ret c).attempting = false := by
  rcases j with _ | _ | _ | _ | _ <;> rfl

/-! ### Actions on a retired tunnel -/

theorem Acts.retired_stays (h : Acts s pc s' pc') (hret : s.life.retired = true) :
    s'.life.retired = true := by
  rcases h with ⟨rfl, _⟩ | h
  · exact hret
  · cases h <;> first | exact hret | rfl

/-- The second look at the flag. -/
theorem not_draw_of_retired {port : UInt32} (hret : s.life.retired = true)
    (hn : next s (.dial (.recheck port)) ch = some (s', pc')) : pc'.attempting = false := by
  cases ch with
  | go =>
      unfold next stepDial at hn
      dsimp only at hn
      rw [if_pos hret] at hn
      split at hn
      · cases hn
      · split at hn <;> (cases hn; rfl)
  | _ => cases hn

/-- An action transmits a BIND for an attempt, or none. -/
theorem Acts.binds_cases (h : Acts s pc s' pc')
    (hbody : ∀ p k q, pc = .send p k → q ∈ pc.unsent → q.body = k.body) :
    s'.binds = s.binds ∨ s'.binds = s.binds + 1 ∧ pc.attempting = true ∧
      pc'.bindsLeft + 1 ≤ pc.bindsLeft := by
  rcases h with ⟨rfl, _⟩ | h
  · exact Or.inl rfl
  · cases h with
    | sendWriteOk k q | sendBlockedOk k q =>
        have hq : q.body = k.body := hbody _ k q rfl (List.mem_singleton.mpr rfl)
        cases k with
        | dial port a id c =>
            have htype : q.body.type = .bind := by rw [hq]; rfl
            refine Or.inr ⟨?_, rfl, le_rfl⟩
            simp [Shared.binds, History.transmit, History.hand, htype]
        | _ =>
            have htype : q.body.type ≠ .bind := by
              rw [hq]
              intro he
              cases he
            refine Or.inl ?_
            simp [Shared.binds, History.transmit, History.hand, htype]
    | _ => exact Or.inl rfl

/-- A `Conn` is returned for an attempt, which is then the last one. -/
theorem Acts.returned_cases (h : Acts s pc s' pc') :
    s'.hist.returned = s.hist.returned ∨ pc.attempting = true ∧ pc'.attempting = false ∧
      ∃ c, s'.hist.returned = Function.update s.hist.returned c true := by
  rcases h with ⟨rfl, _⟩ | h
  · exact Or.inl rfl
  · cases h with
    | dialGranted port a id c => exact Or.inr ⟨rfl, rfl, c, rfl⟩
    | _ => exact Or.inl rfl

/-- On a retired tunnel no `Dial` comes to its attempts, and those in them come closer to their
end. -/
theorem Acts.attempts (h : Acts s pc s' pc') (hn : next s pc ch = some (s', pc'))
    (hret : s.life.retired = true) (hp : pc'.attempting = true) :
    pc.attempting = true ∧ pc'.bindsLeft ≤ pc.bindsLeft := by
  rcases h with ⟨rfl, h⟩ | h
  · cases h with
    | dialRecheck port =>
        rw [not_draw_of_retired hret hn] at hp
        cases hp
    | dialDraw | dialDone => exact ⟨rfl, by simp [Pc.bindsLeft, DialPc.bindsLeft]⟩
    | sendCheckClosed | sendCheckExpired | sendSelectClosed | sendSelectDone | sendSelectTimeout =>
        rw [SendCall.ret_attempting] at hp
        exact ⟨(Pc.attempting_send _ _).trans hp, SendCall.ret_bindsLeft _ _⟩
    | sendEnter | sendEnterWriter | sendCheck | sendSelectChanged | sendWonDone | sendWon
    | sendReadDeadline => exact Pc.send_attempts hp fun _ => rfl
    | closeAgain k =>
        rw [k.ret_background.attempting] at hp
        cases hp
    | _ => cases hp
  · cases h with
    | dialInstall => exact ⟨rfl, le_rfl⟩
    | dialRegister | dialTimeout => exact ⟨rfl, le_rfl⟩
    | dialDropRealm port a id c why => cases why <;> exact ⟨rfl, le_rfl⟩
    | dialRetry port a id c ha =>
        refine ⟨rfl, ?_⟩
        simp only [Pc.bindsLeft, DialPc.bindsLeft]
        omega
    | sendGiveBack | sendRelease =>
        rw [SendCall.ret_attempting] at hp
        exact ⟨(Pc.attempting_send _ _).trans hp, SendCall.ret_bindsLeft _ _⟩
    | sendWriteOk k | sendWriteFail k | sendBlockedOk k | sendBlockedFail k =>
        rcases k.written_cases _ with ⟨_, _, hk⟩ | ⟨_, hk⟩ <;> rw [hk] at hp ⊢ <;>
          exact Pc.send_attempts hp fun hnone => by cases hnone
    | sendOnce | sendOnceWriter | sendTake | sendTakeWriter | sendLockDeadline | sendSkip
    | sendSetDeadline | sendSetDeadlineError | sendBuild | sendWriteBlock =>
        exact Pc.send_attempts hp fun _ => rfl
    | sendRelock | sendClear => exact Pc.send_attempts hp fun hnone => by cases hnone
    | signalInterrupt c k =>
        rw [k.ret_attempting] at hp
        cases hp
    | closeCallback k =>
        rw [k.ret_background.attempting] at hp
        cases hp
    | readerCount =>
        rw [(dispatch_background _).attempting] at hp
        cases hp
    | _ => cases hp

/-! ### Runs -/

/-- What can have happened since the tunnel was retired, in world `w₀` or before. -/
structure Drains (w₀ w : World Shared Pc) : Prop where
  reach : system.Reachable w
  retired : w.shared.life.retired = true
  binds : ∀ t, w.shared.binds + (w.thr t).bindsLeft ≤ w₀.shared.binds + maxRetries
  returned : w.shared.hist.returned = w₀.shared.hist.returned ∨
    (∃ c, w.shared.hist.returned = Function.update w₀.shared.hist.returned c true) ∧
      ∀ t, (w.thr t).attempting = false
  still : (∀ t, (w₀.thr t).attempting = false) → (∀ t, (w.thr t).attempting = false) ∧
    w.shared.binds = w₀.shared.binds ∧ w.shared.hist.returned = w₀.shared.hist.returned

section step
variable {s : Shared} {pc : Pc} (h : Drains w₀ w)
  (hn : next w.shared (w.thr t) ch = some (s, pc))
include h

/-- Only one `Dial` is in its attempts. -/
theorem Drains.alone (ht : (w.thr t).attempting = true) {u : ℕ} (hu : u ≠ t) :
    (w.thr u).attempting = false := by
  refine Bool.eq_false_iff.mpr fun hu' => hu ?_
  exact (resource_exclusive h.reach .dialMu).unique (Pc.holds_of_attempting ht)
    (Pc.holds_of_attempting hu')

include hn

theorem Drains.attempting (hp : pc.attempting = true) :
    (w.thr t).attempting = true ∧ pc.bindsLeft ≤ (w.thr t).bindsLeft :=
  (next_cases hn).attempts hn h.retired hp

theorem Drains.step_none (hnone : ∀ u, (w.thr u).attempting = false) (u : ℕ) :
    (Function.update w.thr t pc u).attempting = false := by
  refine forall_update (P := fun _ (p : Pc) => p.attempting = false) ?_ (fun u _ => hnone u) u
  refine Bool.eq_false_iff.mpr fun hp => ?_
  exact absurd (h.attempting hn hp).1 (Bool.eq_false_iff.mp (hnone t))

theorem Drains.binds_cases : s.binds = w.shared.binds ∨
    s.binds = w.shared.binds + 1 ∧ (w.thr t).attempting = true ∧
      pc.bindsLeft + 1 ≤ (w.thr t).bindsLeft :=
  (next_cases hn).binds_cases fun _ _ _ hp hq => unsent_body h.reach hp hq

theorem Drains.step_binds (u : ℕ) :
    s.binds + (Function.update w.thr t pc u).bindsLeft ≤ w₀.shared.binds + maxRetries := by
  have ht := h.binds t
  refine forall_update (P := fun _ (p : Pc) => s.binds + p.bindsLeft ≤ _) ?_ (fun u hu => ?_) u
  · rcases h.binds_cases hn with hsame | ⟨hmore, _, hleft⟩
    · by_cases hp : pc.attempting = true
      · have hle := (h.attempting hn hp).2
        omega
      · rw [Pc.bindsLeft_of_not_attempting (Bool.eq_false_iff.mpr hp)]
        omega
    · omega
  · have hu' := h.binds u
    rcases h.binds_cases hn with hsame | ⟨hmore, hatt, hleft⟩
    · omega
    · rw [Pc.bindsLeft_of_not_attempting (h.alone hatt hu)]
      omega

theorem Drains.step_returned : s.hist.returned = w₀.shared.hist.returned ∨
    (∃ c, s.hist.returned = Function.update w₀.shared.hist.returned c true) ∧
      ∀ u, (Function.update w.thr t pc u).attempting = false := by
  rcases (next_cases hn).returned_cases with hsame | ⟨hatt, hnot, c, hc⟩
  · rw [hsame]
    exact h.returned.imp_right fun hone => ⟨hone.1, h.step_none hn hone.2⟩
  · rcases h.returned with hsame | ⟨_, hnone⟩
    · refine Or.inr ⟨⟨c, by rw [hc, hsame]⟩, ?_⟩
      exact forall_update (P := fun _ (p : Pc) => p.attempting = false) hnot fun u => h.alone hatt
    · exact absurd hatt (Bool.eq_false_iff.mp (hnone t))

theorem Drains.step_still (hstill : ∀ u, (w₀.thr u).attempting = false) :
    (∀ u, (Function.update w.thr t pc u).attempting = false) ∧
      s.binds = w₀.shared.binds ∧ s.hist.returned = w₀.shared.hist.returned := by
  obtain ⟨hnone, hbinds, hreturned⟩ := h.still hstill
  have ht : ¬(w.thr t).attempting = true := Bool.eq_false_iff.mp (hnone t)
  refine ⟨h.step_none hn hnone, ?_, ?_⟩
  · exact ((h.binds_cases hn).resolve_right fun hmore => ht hmore.2.1).trans hbinds
  · exact ((next_cases hn).returned_cases.resolve_right fun hone => ht hone.1).trans hreturned

end step

theorem Drains.step {l : Label Choice Time} (h : Drains w₀ w) (hs : system.step w l = some w') :
    Drains w₀ w' := by
  have hreach := h.reach.step hs
  cases l with
  | env d =>
      cases hs
      exact ⟨hreach, h.retired, h.binds, h.returned, h.still⟩
  | thread t ch =>
      obtain ⟨s, pc, hn, rfl⟩ := interleave_step_thread.mp hs
      exact ⟨hreach, (next_cases hn).retired_stays h.retired, h.step_binds hn, h.step_returned hn,
        h.step_still hn⟩

/-- **A retired tunnel drains.**  Whatever happens after `Retire`, at most three more BINDs are
transmitted and at most one more `Conn` is returned.  If no `Dial` is in its attempts, there are
none. -/
theorem retired_drains (h : system.Reachable w) (hret : w.shared.life.retired = true)
    {ls : List (Label Choice Time)} (hrun : system.exec (fun _ _ => True) w ls = some w') :
    w'.shared.life.retired = true ∧ w'.shared.binds ≤ w.shared.binds + maxRetries ∧
    (∃ c, ∀ d, w'.shared.hist.returned d = true → w.shared.hist.returned d = true ∨ d = c) ∧
    ((∀ t, (w.thr t).attempting = false) →
      w'.shared.binds = w.shared.binds ∧ w'.shared.hist.returned = w.shared.hist.returned) := by
  have hdrains : Drains w w' := by
    refine System.exec_preserves (fun _ _ _ hd hs => hd.step hs) ?_ hrun
    exact ⟨h, hret, fun t => Nat.add_le_add_left (Pc.bindsLeft_le _) _, Or.inl rfl,
      fun hstill => ⟨hstill, rfl, rfl⟩⟩
  refine ⟨hdrains.retired, (Nat.le_add_right _ _).trans (hdrains.binds 0), ?_,
    fun hstill => (hdrains.still hstill).2⟩
  rcases hdrains.returned with hsame | ⟨⟨c, hc⟩, _⟩
  · exact ⟨0, fun d hd => Or.inl (hsame ▸ hd)⟩
  · refine ⟨c, fun d hd => ?_⟩
    by_cases hdc : d = c
    · exact Or.inr hdc
    · rw [hc, Function.update_of_ne hdc] at hd
      exact Or.inl hd

/-- A `Dial` that waits for the device when the tunnel is retired, and is granted its realm. -/
theorem retired_drains_late_grant :
    ∃ w w', system.exec (fun _ _ => True) (start 1 newSession)
        (dialScript 2 554 7 ++ acts 3 [.call .retire]) = some w ∧
      w.shared.life.retired = true ∧
      system.exec (fun _ _ => True) w
        (receiveScript (newStatusBody 7 statusConnect) 4 ++ acts 2 [.select .conn, .go]) =
          some w' ∧
      w'.shared.hist.returned 0 = true ∧ w'.shared.binds ≤ w.shared.binds + 3 := by
  have hrun : ((system.exec (fun _ _ => True) (start 1 newSession)
      (dialScript 2 554 7 ++ acts 3 [.call .retire])).bind fun w =>
        (system.exec (fun _ _ => True) w
          (receiveScript (newStatusBody 7 statusConnect) 4 ++ acts 2 [.select .conn, .go])).map
            fun w' => (w.shared.life.retired, w'.shared.hist.returned 0)) =
      some (true, true) := by
    decide +kernel
  obtain ⟨w, hw, hrun⟩ := Option.bind_eq_some_iff.mp hrun
  obtain ⟨w', hw', he⟩ := Option.map_eq_some_iff.mp hrun
  obtain ⟨hret, hreturned⟩ := Prod.mk.inj he
  exact ⟨w, w', hw, hret, hw', hreturned,
    (retired_drains (reach_of_exec (by decide) hw) hret hw').2.1⟩

end DahuaP2p.Tunnel
