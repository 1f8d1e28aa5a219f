import DahuaP2p.TunnelLocks

/-! # The order of sends and the counters they carry

Between `session.Send` and the end of `client.Send` a goroutine holds the send permit, so the
packets are handed to the UDP socket in the order in which the session numbered them
(`send_order`).

The counters are advanced when a packet is built, before the UDP write.  In runs in which no
UDP write fails every packet that is built is transmitted, so the counters are those of the
packets transmitted (`counters_of_transmitted`); a failed write leaves a gap for good. -/

namespace DahuaP2p.Tunnel

open BigEndian Ptcp Threads

variable {ok : World Shared Pc → Label Choice Time → Prop} {w : World Shared Pc}
  {s s' : Shared} {pc pc' : Pc}

/-! ### The session's log -/

/-- The packets the session built are exactly those in the log. -/
theorem Acts.sentSince (h : Acts s pc s' pc')
    (hi : SentSince s.hist.initial s.session s.hist.built) :
    SentSince s'.hist.initial s'.session s'.hist.built := by
  rcases h with ⟨rfl, _⟩ | h
  · exact hi
  · cases h with
    | sendBuild k => exact hi.send k.body
    | readerCount q => exact hi.recvPacket q
    | _ => exact hi

theorem built_sentSince (h : system.Reach ok w) :
    SentSince w.shared.hist.initial w.shared.session w.shared.hist.built := by
  refine system_invariant
    (I := fun w => SentSince w.shared.hist.initial w.shared.session w.shared.hist.built) ?_ ?_ ?_ h
  · intro now session _
    exact SentSince.refl session
  · intro w t c s pc _ hi _ _ ha
    exact ha.sentSince hi
  · intro w d _ hi
    exact hi

/-! ### Packets in hand -/

/-- The packet that is built and not yet handed to the socket. -/
def Pc.built : Pc → List Packet
  | .send (.write q) _ => [q]
  | _ => []

/-- The packet that is built and whose UDP write has not ended. -/
def Pc.unsent : Pc → List Packet
  | .send (.write q) _ => [q]
  | .send (.blocked q) _ => [q]
  | _ => []

/-- Between `session.Send` and the end of `client.Send`. -/
def Pc.Sending (pc : Pc) : Prop := pc.unsent ≠ []

theorem Pc.Sending.holds_permit (h : pc.Sending) : pc.holds .permit = true := by
  unfold Pc.Sending Pc.unsent at h
  split at h
  · rfl
  · rfl
  · exact absurd rfl h

@[simp] theorem Resumes.unsent (h : Resumes pc) : pc.unsent = [] := by
  cases h <;> rfl

@[simp] theorem SendCall.written_unsent (k : SendCall) (e : Option SendError) :
    (k.written e).unsent = [] := by
  rcases k.written_cases e with ⟨c, _, h⟩ | ⟨_, h⟩ <;> rw [h] <;> rfl

/-- A packet that is not yet handed to the socket is not yet sent. -/
theorem Pc.built_eq_nil (h : pc.unsent = []) : pc.built = [] := by
  unfold Pc.built
  split
  · cases h
  · rfl

/-- A goroutine that goes on after a call has no packet in hand. -/
theorem Resumes.keep_unsent (h : Resumes pc) {out moved : List Packet} :
    Transfer out moved [] out moved pc.unsent := by
  rw [h.unsent]
  exact .keep _ _ _

theorem Resumes.keep_built (h : Resumes pc) {out moved : List Packet} :
    Transfer out moved [] out moved pc.built := by
  rw [Pc.built_eq_nil h.unsent]
  exact .keep _ _ _

theorem Local.unsent_eq (h : Local s pc pc') : pc'.unsent = pc.unsent := by
  cases h <;> first | rfl | exact Resumes.unsent (by simp)

theorem Local.built_eq (h : Local s pc pc') : pc'.built = pc.built := by
  cases h <;> first | rfl | exact Pc.built_eq_nil (Resumes.unsent (by simp))

/-- One action moves at most the packet in hand from the session to the socket. -/
theorem Acts.hands (h : Acts s pc s' pc') :
    Transfer s.hist.built (s.hist.handed.map Handed.packet) pc.built
      s'.hist.built (s'.hist.handed.map Handed.packet) pc'.built := by
  rcases h with ⟨rfl, h⟩ | h
  · rw [h.built_eq]
    exact .keep _ _ _
  · cases h with
    | sendBuild k => exact .pick _ _ _
    | sendWriteOk k q _ =>
        rw [Pc.built_eq_nil (k.written_unsent _)]
        simp only [History.transmit, History.hand, List.map_append, List.map_cons, List.map_nil]
        exact .drop _ _ q
    | sendWriteFail k q =>
        rw [Pc.built_eq_nil (k.written_unsent _)]
        simp only [History.hand, List.map_append, List.map_cons, List.map_nil]
        exact .drop _ _ q
    | sendWriteBlock k _ q =>
        simp only [History.hand, List.map_append, List.map_cons, List.map_nil]
        exact .drop _ _ q
    | sendBlockedOk k q =>
        rw [Pc.built_eq_nil (k.written_unsent _)]
        exact .keep _ _ _
    | sendBlockedFail k =>
        rw [Pc.built_eq_nil (k.written_unsent _)]
        exact .keep _ _ _
    | sendGiveBack | sendRelease | signalInterrupt | closeCallback | readerCount =>
        exact Resumes.keep_built (by simp)
    | _ => exact .keep _ _ _

/-- At most one goroutine is between `session.Send` and the end of `client.Send`. -/
theorem sending_unique (h : system.Reach ok w) {t u : ℕ} (ht : (w.thr t).Sending)
    (hu : (w.thr u).Sending) : u = t :=
  (resource_exclusive h .permit).unique ht.holds_permit hu.holds_permit

/-- When a goroutine that holds the permit moves, no other one is sending. -/
theorem unsent_others (h : system.Reach ok w) {t : ℕ} (ht : (w.thr t).holds .permit = true)
    (u : ℕ) (hu : u ≠ t) : (w.thr u).unsent = [] := by
  by_contra hne
  have hp : (w.thr u).holds .permit = true := Pc.Sending.holds_permit hne
  exact hu ((resource_exclusive h .permit).unique ht hp)

/-- A goroutine gets and passes on packets only while it holds the permit. -/
theorem Acts.unsent_cases (h : Acts s pc s' pc') :
    pc.holds .permit = true ∨ (pc.built = pc'.built ∧ pc.unsent = pc'.unsent) := by
  have hnil : ∀ {p p' : Pc}, p.unsent = [] → p'.unsent = [] →
      p.built = p'.built ∧ p.unsent = p'.unsent := fun h h' => by
    rw [Pc.built_eq_nil h, Pc.built_eq_nil h', h, h']
    exact ⟨rfl, rfl⟩
  rcases h with ⟨rfl, h⟩ | h
  · exact Or.inr ⟨h.built_eq.symm, h.unsent_eq.symm⟩
  · cases h with
    | sendBuild | sendWriteOk | sendWriteFail | sendWriteBlock | sendBlockedOk | sendBlockedFail
    | sendGiveBack | sendRelease => exact Or.inl rfl
    | signalInterrupt | closeCallback | readerCount =>
        exact Or.inr (hnil rfl (Resumes.unsent (by simp)))
    | _ => exact Or.inr (hnil rfl rfl)

theorem handed_inFlight (h : system.Reach ok w) :
    InFlight Pc.built w.shared.hist.built (w.shared.hist.handed.map Handed.packet) w.thr := by
  refine system_invariant (I := fun w => InFlight Pc.built w.shared.hist.built
    (w.shared.hist.handed.map Handed.packet) w.thr) ?_ ?_ ?_ h
  · intro now session _
    exact InFlight.of_none (forall_startThreads (P := fun p => p.built = []) rfl rfl rfl)
  · intro w t c s pc hr hi _ _ ha
    refine hi.update ha.hands fun hne u hu => Pc.built_eq_nil (unsent_others hr ?_ u hu)
    exact ha.unsent_cases.resolve_right fun he => hne he.1
  · intro w d _ hi
    exact hi

/-- **Send order.**  In every reachable state exactly one send token exists: once `sendOnce` has
made the channel, the token is in it, or exactly one goroutine holds it.  At most one goroutine
is between `session.Send` and the end of `client.Send`, and the datagrams handed to the UDP
socket are the packets built by the session, in that order, up to the one in hand; their LMIDs
are consecutive. -/
theorem send_order (h : system.Reachable w) :
    (w.shared.permit.once = true →
      Exclusive w.shared.permit.token fun t => (w.thr t).holds .permit) ∧
    (w.shared.permit.once = false → ∀ t, (w.thr t).holds .permit = false) ∧
    (∀ t u, (w.thr t).Sending → (w.thr u).Sending → u = t) ∧
    InFlight Pc.built w.shared.hist.built (w.shared.hist.handed.map Handed.packet) w.thr ∧
    InStep w.shared.hist.initial w.shared.hist.built ∧
    InStep w.shared.hist.initial (w.shared.hist.handed.map Handed.packet) := by
  have hx := resource_exclusive h .permit
  have hstep := (built_sentSince h).inStep
  have hfly := handed_inFlight h
  refine ⟨fun ho => ?_, fun ho t => ?_, fun t u ht hu => sending_unique h ht hu, hfly, hstep,
    hstep.of_prefix hfly.moved_prefix⟩
  · simpa [Shared.free, ho] using hx
  · by_contra ht
    have hfree := hx.not_free (Bool.of_not_eq_false ht)
    simp [Shared.free, ho] at hfree

/-- Two heartbeats, the second with a failed UDP write, are handed over in order. -/
theorem send_order_two_rounds :
    ∃ w, system.exec (fun _ _ => True) (start 1 newSession)
        (heartbeatRound .ok ++ heartbeatRound .fail) = some w ∧
      w.shared.hist.handed.length = 2 ∧
      InStep newSession (w.shared.hist.handed.map Handed.packet) := by
  have hrun : (system.exec (fun _ _ => True) (start 1 newSession)
      (heartbeatRound .ok ++ heartbeatRound .fail)).map (fun w =>
        (w.shared.hist.initial, w.shared.hist.handed.length)) = some (newSession, 2) := by
    decide
  obtain ⟨w, hw, he⟩ := Option.map_eq_some_iff.mp hrun
  simp only [Prod.mk.injEq] at he
  have horder := send_order (w := w) (reach_of_exec (by decide) hw)
  rw [he.1] at horder
  exact ⟨w, hw, he.2, horder.2.2.2.2.2⟩

/-! ### Counters of what was transmitted -/

/-- The step is not a UDP write that fails. -/
def WritesSucceed (w : World Shared Pc) : Label Choice Time → Prop
  | .thread t (.udp .fail) => (w.thr t).unsent = []
  | .thread _ (.kernel ok) => ok = true
  | _ => True

instance (w : World Shared Pc) (l : Label Choice Time) : Decidable (WritesSucceed w l) := by
  unfold WritesSucceed
  split <;> infer_instance

/-- A UDP write fails only by its own choice. -/
theorem write_fails {q : Packet} {k : SendCall} {c : Choice}
    (h : next s (.send (.write q) k) c = some (s', pc')) :
    s'.hist.failed = s.hist.failed ∨ c = .udp .fail := by
  cases c with
  | udp r =>
      cases r with
      | fail => exact Or.inr rfl
      | ok | block =>
          refine Or.inl ?_
          simp only [next, stepSend] at h
          split at h
          · simp only [Option.some.injEq, Prod.mk.injEq] at h
            obtain ⟨rfl, _⟩ := h
            rfl
          · cases h
  | _ =>
      simp only [next, stepSend, stepAcquire, stepWriter] at h
      split at h <;> cases h

theorem blocked_fails {q : Packet} {k : SendCall} {c : Choice}
    (h : next s (.send (.blocked q) k) c = some (s', pc')) :
    s'.hist.failed = s.hist.failed ∨ c = .udp .fail ∨ c = .kernel false := by
  cases c with
  | udp r =>
      cases r with
      | fail => exact Or.inr (Or.inl rfl)
      | ok | block =>
          simp only [next, stepSend, stepAcquire, stepWriter] at h
          split at h <;> cases h
  | kernel r =>
      cases r with
      | false => exact Or.inr (Or.inr rfl)
      | true =>
          refine Or.inl ?_
          simp only [next, stepSend] at h
          split at h
          · cases h
          · simp only [Option.some.injEq, Prod.mk.injEq] at h
            obtain ⟨rfl, _⟩ := h
            rfl
  | _ =>
      simp only [next, stepSend, stepAcquire, stepWriter] at h
      split at h <;> cases h

/-- A step that is not a failed UDP write does not count one. -/
theorem WritesSucceed.failed_eq {t : ℕ} {c : Choice} (hok : WritesSucceed w (.thread t c))
    (hn : next w.shared (w.thr t) c = some (s, pc)) : s.hist.failed = w.shared.hist.failed := by
  have ha := next_cases hn
  generalize hpc : w.thr t = p at hn ha
  rcases ha with ⟨rfl, _⟩ | ha
  · rfl
  · cases ha with
    | sendWriteFail k q =>
        rcases write_fails hn with h | rfl
        · exact h
        · simp [WritesSucceed, hpc, Pc.unsent] at hok
    | sendBlockedFail k q =>
        rcases blocked_fails hn with h | rfl | rfl
        · exact h
        · simp [WritesSucceed, hpc, Pc.unsent] at hok
        · simp [WritesSucceed] at hok
    | _ => rfl

/-- An action that fails no UDP write moves at most the packet in hand from the session to the
network. -/
theorem Acts.transmits (h : Acts s pc s' pc') (hf : s'.hist.failed = s.hist.failed) :
    Transfer s.hist.built s.hist.transmitted pc.unsent s'.hist.built s'.hist.transmitted
      pc'.unsent := by
  rcases h with ⟨rfl, h⟩ | h
  · rw [h.unsent_eq]
    exact .keep _ _ _
  · cases h with
    | sendBuild k => exact .pick _ _ _
    | sendWriteOk k q _ | sendBlockedOk k q _ =>
        rw [SendCall.written_unsent]
        exact .drop _ _ q
    | sendWriteFail | sendBlockedFail => exact absurd hf (Nat.succ_ne_self _)
    | sendGiveBack | sendRelease | signalInterrupt | closeCallback | readerCount =>
        exact Resumes.keep_unsent (by simp)
    | _ => exact .keep _ _ _

theorem transmitted_inFlight (h : system.Reach WritesSucceed w) :
    InFlight Pc.unsent w.shared.hist.built w.shared.hist.transmitted w.thr := by
  refine system_invariant (I := fun w => InFlight Pc.unsent w.shared.hist.built
    w.shared.hist.transmitted w.thr) ?_ ?_ ?_ h
  · intro now session _
    exact InFlight.of_none (forall_startThreads (P := fun p => p.unsent = []) rfl rfl rfl)
  · intro w t c s pc hr hi hok hn ha
    refine hi.update (ha.transmits (hok.failed_eq hn)) fun hne => unsent_others hr ?_
    exact ha.unsent_cases.resolve_right fun he => hne he.2
  · intro w d _ hi
    exact hi

/-- **Counters of what was transmitted.**  In every run whose steps are not failed UDP writes,
every transmitted packet carries the LMID one above the packet transmitted before it and in
`Sent` the serialized body bytes transmitted before it.  The session counts no other packet,
except the one whose UDP write has not ended: a `sendPacketFor` that returned an error left the
counters alone. -/
theorem counters_of_transmitted (h : system.Reach WritesSucceed w) :
    InStep w.shared.hist.initial w.shared.hist.transmitted ∧
    InFlight Pc.unsent w.shared.hist.built w.shared.hist.transmitted w.thr ∧
    SentSince w.shared.hist.initial w.shared.session w.shared.hist.built ∧
    ((∀ t, ¬ (w.thr t).Sending) →
      SentSince w.shared.hist.initial w.shared.session w.shared.hist.transmitted) := by
  have hsent := built_sentSince h
  have hfly := transmitted_inFlight h
  refine ⟨hsent.inStep.of_prefix hfly.moved_prefix, hfly, hsent, fun hnone => ?_⟩
  rw [← hfly.2 fun t => not_not.mp (hnone t)]
  exact hsent

/-- Two heartbeats that are transmitted. -/
theorem counters_of_transmitted_two_rounds :
    ∃ w, system.exec WritesSucceed (start 1 newSession)
        (heartbeatRound .ok ++ heartbeatRound .ok) = some w ∧
      w.shared.hist.transmitted.length = 2 ∧ InStep newSession w.shared.hist.transmitted := by
  have hrun : (system.exec WritesSucceed (start 1 newSession)
      (heartbeatRound .ok ++ heartbeatRound .ok)).map (fun w =>
        (w.shared.hist.initial, w.shared.hist.transmitted.length)) = some (newSession, 2) := by
    decide
  obtain ⟨w, hw, he⟩ := Option.map_eq_some_iff.mp hrun
  simp only [Prod.mk.injEq] at he
  have hcount := (counters_of_transmitted (reach_of_exec (by decide) hw)).1
  rw [he.1] at hcount
  exact ⟨w, hw, he.2, hcount⟩

/-- The first heartbeat fails, the second is transmitted: the first packet on the wire has
`Sent = 12` and `LMID = 1`, as if another one had been transmitted before it. -/
theorem counters_after_failed_write :
    ∃ w, system.Reachable w ∧ w.shared.hist.initial = newSession ∧
      w.shared.hist.transmitted =
        [⟨{ sent := 12, recv := 0, pid := 0xFFFE, lmid := 1, rmid := 0 }, newHeartbeatBody⟩] ∧
      ¬ InStep w.shared.hist.initial w.shared.hist.transmitted := by
  have hrun : (system.exec (fun _ _ => True) (start 1 newSession)
      (heartbeatRound .fail ++ heartbeatRound .ok)).map (fun w =>
        (w.shared.hist.initial, w.shared.hist.transmitted)) = some (newSession,
        [⟨{ sent := 12, recv := 0, pid := 0xFFFE, lmid := 1, rmid := 0 }, newHeartbeatBody⟩]) := by
    decide
  obtain ⟨w, hw, he⟩ := Option.map_eq_some_iff.mp hrun
  simp only [Prod.mk.injEq] at he
  refine ⟨w, reach_of_exec (by decide) hw, he.1, he.2, fun hstep => ?_⟩
  rw [he.1, he.2] at hstep
  have hfirst := (hstep 0 _ rfl).1
  revert hfirst
  decide

end DahuaP2p.Tunnel
