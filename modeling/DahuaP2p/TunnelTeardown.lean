import DahuaP2p.TunnelTracked

/-! # No payload after a disconnect

Three code paths announce the teardown of a `Conn` to the device with a DISC: `Conn.Close`,
the queue overflow in `reader`, and `Tunnel.Close`.  Each sets the closed flag of the `Conn`
before its DISC waits for the send permit (`announced_closed`), so a DISC that was handed to the
socket belongs to a closed `Conn` (`discs_closed`).

A writer reads the flag again after it has won the permit, and keeps the permit until its payload
is handed over.  Hence no DISC of its `Conn` was handed over before the payload
(`cleared_no_disc`), and in the order of the socket no payload of a `Conn` follows a DISC of it
(`no_payload_after_disc`). -/

namespace DahuaP2p.Tunnel

open BigEndian Ptcp Threads

variable {s s' : Shared} {pc pc' : Pc} {c : ConnId} {w : World Shared Pc}
  {ok : World Shared Pc → Label Choice Time → Prop}

/-! ### Announcing a teardown -/

def SendCall.announces : SendCall → List ConnId
  | closeDisc _ c rest _ => c :: rest.map Prod.snd
  | readerOverflow _ c => [c]
  | connClose _ c _ => [c]
  | _ => []

def SignalCall.announces (c : ConnId) : SignalCall → List ConnId
  | close _ ids _ => ids.map Prod.snd
  | readerDisc => []
  | readerOverflow _ => [c]
  | connClose _ => [c]

/-- The `Conn`s for whose teardown the goroutine sends a DISC, or may go on to send one. -/
def Pc.announces : Pc → List ConnId
  | .send _ k => k.announces
  | .signal _ c k => k.announces c
  | .close (.signal _ ids) _ => ids.map Prod.snd
  | .close (.disc ids) _ => ids.map Prod.snd
  | .connClose (.check c) => [c]
  | _ => []

section returns
variable (k : SendCall) (e : Option SendError) (d : ConnId) (j : SignalCall)

theorem SendCall.announces_of_ret (h : c ∈ (k.ret e).announces) : c ∈ k.announces := by
  cases k with
  | closeDisc => exact List.mem_cons_of_mem _ h
  | connClose id d i =>
      cases e with
      | none =>
          simp only [SendCall.ret] at h
          split at h
          · exact h
          · cases h
      | some _ => cases h
  | dial | write => cases e <;> cases h
  | _ => cases h

@[simp] theorem SendCall.written_announces : (k.written e).announces = k.announces := by
  rcases k.written_cases e with ⟨_, _, h⟩ | ⟨_, h⟩ <;> rw [h] <;> rfl

theorem SignalCall.announces_of_ret (h : c ∈ (j.ret d).announces) : c ∈ j.announces d := by
  rcases j with _ | _ | _ | _ | _ <;> first | exact h | cases h

@[simp] theorem Background.announces (h : Background pc) : pc.announces = [] := by
  cases h <;> rfl

end returns

theorem Pc.Scoped.of_announces (h : pc.Scoped s) (hc : c ∈ pc.announces) :
    c < s.table.connCount := by
  have hall : ∀ {ids : List (UInt32 × ConnId)}, (∀ e ∈ ids, s.Named e.1 e.2) →
      c ∈ ids.map Prod.snd → c < s.table.connCount := by
    intro ids hids hmem
    obtain ⟨e, he, rfl⟩ := List.mem_map.mp hmem
    exact (hids e he).1
  cases pc with
  | send p k =>
      cases k with
      | closeDisc =>
          rcases List.mem_cons.mp hc with rfl | hc
          · exact h.1.1
          · exact hall h.2 hc
      | readerOverflow =>
          obtain rfl := List.mem_singleton.mp hc
          exact h.1
      | connClose =>
          obtain rfl := List.mem_singleton.mp hc
          exact h.1.1
      | _ => cases hc
  | signal p d k =>
      cases k with
      | close => exact hall h.2.2 hc
      | readerDisc => cases hc
      | readerOverflow | connClose =>
          obtain rfl := List.mem_singleton.mp hc
          exact h.1
  | close p k =>
      cases p with
      | signal => exact hall h.2 hc
      | disc => exact hall h hc
      | _ => cases hc
  | connClose p =>
      cases p with
      | check =>
          obtain rfl := List.mem_singleton.mp hc
          exact h.1
      | _ => cases hc
  | _ => cases hc

/-- A goroutine that comes to announce a teardown is about to close the `Conn`. -/
theorem Acts.announces (h : Acts s pc s' pc') (hc : c ∈ pc'.announces) :
    c ∈ pc.announces ∨ c ∈ pc'.toClose := by
  rcases h with ⟨rfl, h⟩ | h
  · cases h with
    | sendCheckClosed | sendCheckExpired | sendSelectClosed | sendSelectDone | sendSelectTimeout =>
        exact Or.inl (SendCall.announces_of_ret _ _ hc)
    | closeAgain => simp at hc
    | closeDisc ids i id d k hi =>
        left
        rcases List.mem_cons.mp hc with rfl | hc
        · exact List.mem_map_of_mem (f := Prod.snd) (List.mem_of_getElem? hi)
        · obtain ⟨e, he, rfl⟩ := List.mem_map.mp hc
          exact List.mem_map_of_mem (List.mem_of_mem_eraseIdx he)
    | _ => first | exact Or.inl hc | cases hc
  · cases h with
    | sendGiveBack | sendRelease => exact Or.inl (SendCall.announces_of_ret _ _ hc)
    | sendWriteOk | sendWriteFail | sendBlockedOk | sendBlockedFail =>
        rw [SendCall.written_announces] at hc
        exact Or.inl hc
    | signalInterrupt d k => exact Or.inl (SignalCall.announces_of_ret d k hc)
    | closeCallback | readerCount => simp at hc
    | closeSwap => exact Or.inr hc
    | readerOverflow | connCloseEnter => exact Or.inr hc
    | _ => exact Or.inl hc

/-- **A teardown is announced after the `Conn` was closed**: until then the goroutine is on its
way to set the flag. -/
theorem announced_closed (h : system.Reach ok w) {t : ℕ} (ht : c ∈ (w.thr t).announces) :
    c ∈ (w.thr t).toClose ∨ (w.shared.table.conns c).closed = true := by
  revert t c
  refine system_invariant (I := fun w => ∀ {c t}, c ∈ (w.thr t).announces →
    c ∈ (w.thr t).toClose ∨ (w.shared.table.conns c).closed = true) ?_ ?_ ?_ h
  · intro now session _ c t ht
    have hnone := forall_startThreads (P := fun p => p.announces = []) rfl rfl rfl t
    have ht : c ∈ (startThreads t).announces := ht
    rw [hnone] at ht
    cases ht
  · intro w t ch s pc hr hi _ _ ha c u
    have hmono : ∀ v, c ∈ (w.thr v).announces → (w.shared.table.conns c).closed = true →
        (s.table.conns c).closed = true :=
      fun v hv => ha.closed_mono (((scope hr).thr v).of_announces hv)
    refine forall_update (P := fun _ (p : Pc) => c ∈ p.announces →
      c ∈ p.toClose ∨ (s.table.conns c).closed = true) ?_ ?_ u
    · intro hc
      rcases ha.announces hc with hold | hnew
      · rcases hi hold with hto | hcl
        · exact ha.toClose hto
        · exact Or.inr (hmono t hold hcl)
      · exact Or.inl hnew
    · intro v _ hv
      exact (hi hv).imp_right (hmono v hv)
  · intro w d _ hi c t ht
    exact hi ht

/-! ### What is handed to the socket -/

/-- An action hands at most the packet in hand to the socket. -/
theorem Acts.handed (h : Acts s pc s' pc') :
    s'.hist.handed = s.hist.handed ∨
      ∃ q k, pc = .send (.write q) k ∧
        s'.hist.handed = s.hist.handed ++ [⟨q, k.writer, k.disc.map Prod.snd⟩] := by
  rcases h with ⟨rfl, _⟩ | h
  · exact Or.inl rfl
  · cases h with
    | sendWriteOk k q | sendWriteFail k q | sendWriteBlock k _ q => exact Or.inr ⟨q, k, rfl, rfl⟩
    | _ => exact Or.inl rfl

theorem SendCall.announces_of_disc {k : SendCall} (h : k.disc.map Prod.snd = some c) :
    c ∈ k.announces := by
  cases k with
  | closeDisc | readerOverflow | connClose =>
      cases h
      exact List.mem_cons_self
  | _ => cases h

/-- **A DISC that was handed over belongs to a closed `Conn`.** -/
theorem discs_closed (h : system.Reach ok w) {d : Handed} (hd : d ∈ w.shared.hist.handed)
    (hc : d.discFor = some c) :
    c < w.shared.table.connCount ∧ (w.shared.table.conns c).closed = true := by
  revert d c
  refine system_invariant (I := fun w => ∀ {c d}, d ∈ w.shared.hist.handed → d.discFor = some c →
    c < w.shared.table.connCount ∧ (w.shared.table.conns c).closed = true) ?_ ?_ ?_ h
  · intro now session _ c d hd
    cases hd
  · intro w t ch s pc hr hi _ _ ha c d hd hc
    have hmono : c < w.shared.table.connCount ∧ (w.shared.table.conns c).closed = true →
        c < s.table.connCount ∧ (s.table.conns c).closed = true :=
      fun hold => ⟨hold.1.trans_le ha.extends.count, ha.closed_mono hold.1 hold.2⟩
    rcases ha.handed with hsame | ⟨q, k, hpc, hnew⟩
    · exact hmono (hi (hsame ▸ hd) hc)
    · change d ∈ s.hist.handed at hd
      rw [hnew] at hd
      rcases List.mem_append.mp hd with hold | hlast
      · exact hmono (hi hold hc)
      · obtain rfl := List.mem_singleton.mp hlast
        have hann : c ∈ (w.thr t).announces := by
          rw [hpc]
          exact SendCall.announces_of_disc hc
        refine hmono ⟨((scope hr).thr t).of_announces hann, ?_⟩
        rcases announced_closed hr hann with hto | hcl
        · rw [hpc] at hto
          cases hto
        · exact hcl
  · intro w d _ hi c e he hc
    exact hi he hc

/-! ### A writer that found its `Conn` open -/

/-- The `Conn` that a writer with the permit found open, up to the UDP write of the payload. -/
def Pc.cleared : Pc → Option ConnId
  | .send (.setDeadline false _) k => k.writer
  | .send .build k => k.writer
  | .send (.write _) k => k.writer
  | _ => none

@[simp] theorem Resumes.cleared (h : Resumes pc) : pc.cleared = none := by
  cases h <;> rfl

@[simp] theorem SendCall.written_cleared (k : SendCall) (e : Option SendError) :
    (k.written e).cleared = none := by
  rcases k.written_cases e with ⟨_, _, h⟩ | ⟨_, h⟩ <;> rw [h] <;> rfl

theorem Pc.holds_of_cleared (h : pc.cleared = some c) : pc.holds .permit = true := by
  cases pc with
  | send p k =>
      cases p with
      | setDeadline | build | write => rfl
      | _ => cases h
  | _ => cases h

/-- A writer is cleared when it reads that its `Conn` is open, and hands nothing over before its
own payload. -/
theorem Acts.cleared (h : Acts s pc s' pc') (hw : pc.WriterOnly) (hc : pc'.cleared = some c) :
    s'.hist.handed = s.hist.handed ∧
      (pc.cleared = some c ∨ (s.table.conns c).closed = false) := by
  rcases h with ⟨rfl, h⟩ | h
  · refine ⟨rfl, ?_⟩
    cases h with
    | sendReadDeadline k d hk =>
        cases hcl : (s'.table.conns d).closed with
        | true =>
            rw [hcl] at hc
            cases hc
        | false =>
            rw [hcl] at hc
            have hkc : k.writer = some c := hc
            rw [hk] at hkc
            cases hkc
            exact Or.inr hcl
    | sendCheckClosed | sendCheckExpired | sendSelectClosed | sendSelectDone | sendSelectTimeout
    | closeAgain => simp at hc
    | _ => cases hc
  · cases h with
    | sendTake k =>
        have hk : k.writer = some c := hc
        rw [hw.2 rfl] at hk
        cases hk
    | sendSetDeadline | sendBuild => exact ⟨rfl, Or.inl hc⟩
    | sendWriteOk | sendWriteFail | sendBlockedOk | sendBlockedFail =>
        rw [SendCall.written_cleared] at hc
        cases hc
    | sendGiveBack | sendRelease | signalInterrupt | closeCallback | readerCount => simp at hc
    | _ => cases hc

/-- **No DISC of the `Conn` before its payload**: the flag was read under the permit, and nobody
else hands anything over meanwhile. -/
theorem cleared_no_disc (h : system.Reach ok w) {t : ℕ} (ht : (w.thr t).cleared = some c) :
    ∀ d ∈ w.shared.hist.handed, d.discFor ≠ some c := by
  revert t c
  refine system_invariant (I := fun w => ∀ {c t}, (w.thr t).cleared = some c →
    ∀ d ∈ w.shared.hist.handed, d.discFor ≠ some c) ?_ ?_ ?_ h
  · intro now session _ c t _ d hd
    cases hd
  · intro w t ch s pc hr hi _ _ ha c u
    refine forall_update (P := fun _ (p : Pc) => p.cleared = some c →
      ∀ d ∈ s.hist.handed, d.discFor ≠ some c) ?_ ?_ u
    · intro hc d hd
      obtain ⟨hsame, hwhy⟩ := ha.cleared (writerOnly hr t) hc
      rw [hsame] at hd
      rcases hwhy with hold | hopen
      · exact hi hold d hd
      · intro hdc
        rw [(discs_closed hr hd hdc).2] at hopen
        cases hopen
    · intro v hv hvc d hd
      rcases ha.handed with hsame | ⟨q, k, hpc, _⟩
      · rw [hsame] at hd
        exact hi hvc d hd
      · have ht : (w.thr t).holds .permit = true := by
          rw [hpc]
          rfl
        exact absurd ((resource_exclusive hr .permit).unique ht (Pc.holds_of_cleared hvc)) hv
  · intro w d _ hi c t ht
    exact hi ht

/-! ### What the labels say -/

/-- The packet in hand carries the body of its call. -/
def Pc.Carries : Pc → Prop
  | .send (.write q) k => q.body = k.body
  | _ => True

theorem Resumes.carries (h : Resumes pc) : pc.Carries := by
  cases h <;> trivial

theorem Acts.carries (h : Acts s pc s' pc') (hp : pc.Carries) : pc'.Carries := by
  rcases h with ⟨rfl, h⟩ | h
  · cases h <;> first | trivial | exact Resumes.carries (by simp)
  · cases h with
    | sendBuild => rfl
    | sendWriteOk k | sendWriteFail k | sendBlockedOk k | sendBlockedFail k =>
        unfold SendCall.written
        split <;> trivial
    | sendGiveBack | sendRelease | signalInterrupt | closeCallback | readerCount =>
        exact Resumes.carries (by simp)
    | _ => trivial

theorem carries (h : system.Reach ok w) (t : ℕ) : (w.thr t).Carries := by
  revert t
  refine system_invariant (I := fun w => ∀ t, (w.thr t).Carries) ?_ ?_ ?_ h
  · intro now session _
    exact forall_startThreads trivial trivial trivial
  · intro w t ch s pc _ hi _ _ ha
    exact forall_update (P := fun _ (p : Pc) => p.Carries) (ha.carries (hi t)) fun u _ => hi u
  · intro w d _ hi
    exact hi

/-- The labels of a datagram tell what it carries: the payloads are the packets labelled with the
`Conn` that wrote them, the status packets are DISCs and are the packets labelled with the `Conn`
whose teardown they announce, both under the realm ID of that `Conn`. -/
structure Handed.Labelled (s : Shared) (d : Handed) : Prop where
  payload : d.packet.body.type = .payload → ∃ c, d.writer = some c
  status : d.packet.body.type = .status → ∃ c, d.discFor = some c
  writer : ∀ c, d.writer = some c →
    d.packet.body.type = .payload ∧ s.Named d.packet.body.realm c
  disc : ∀ c, d.discFor = some c → d.packet.body.type = .status ∧
    d.packet.body.status = statusDisconnect ∧ s.Named d.packet.body.realm c

theorem Handed.Labelled.mono {d : Handed} (h : d.Labelled s) (he : s.Extends s') :
    d.Labelled s' :=
  ⟨h.payload, h.status, fun c hc => ⟨(h.writer c hc).1, (h.writer c hc).2.mono he⟩,
    fun c hc => ⟨(h.disc c hc).1, (h.disc c hc).2.1, (h.disc c hc).2.2.mono he⟩⟩

theorem SendCall.Scoped.labelled {k : SendCall} {q : Packet} (h : k.Scoped s)
    (hq : q.body = k.body) : Handed.Labelled s ⟨q, k.writer, k.disc.map Prod.snd⟩ := by
  cases k with
  | write id d =>
      refine ⟨fun _ => ⟨d, rfl⟩, fun ht => ?_, fun c hc => ?_, fun c hc => (by cases hc)⟩
      · rw [hq] at ht
        cases ht
      · cases hc
        rw [hq]
        exact ⟨rfl, h.1⟩
  | closeDisc id d | connClose id d =>
      refine ⟨fun ht => ?_, fun _ => ⟨d, rfl⟩, fun c hc => (by cases hc), fun c hc => ?_⟩
      · rw [hq] at ht
        cases ht
      · cases hc
        rw [hq]
        exact ⟨rfl, rfl, h.1⟩
  | readerOverflow id d =>
      refine ⟨fun ht => ?_, fun _ => ⟨d, rfl⟩, fun c hc => (by cases hc), fun c hc => ?_⟩
      · rw [hq] at ht
        cases ht
      · cases hc
        rw [hq]
        exact ⟨rfl, rfl, h⟩
  | _ =>
      refine ⟨fun ht => ?_, fun ht => ?_, fun c hc => (by cases hc), fun c hc => (by cases hc)⟩ <;>
        (rw [hq] at ht; cases ht)

theorem handed_labelled (h : system.Reach ok w) :
    ∀ d ∈ w.shared.hist.handed, d.Labelled w.shared := by
  refine system_invariant (I := fun w => ∀ d ∈ w.shared.hist.handed, d.Labelled w.shared)
    ?_ ?_ ?_ h
  · intro now session _ d hd
    cases hd
  · intro w t ch s pc hr hi _ _ ha d hd
    rcases ha.handed with hsame | ⟨q, k, hpc, hnew⟩
    · exact (hi d (hsame ▸ hd)).mono ha.extends
    · change d ∈ s.hist.handed at hd
      rw [hnew] at hd
      rcases List.mem_append.mp hd with hold | hlast
      · exact (hi d hold).mono ha.extends
      · obtain rfl := List.mem_singleton.mp hlast
        have hscope : (w.thr t).Scoped w.shared := (scope hr).thr t
        have hbody : (w.thr t).Carries := carries hr t
        rw [hpc] at hscope hbody
        exact (SendCall.Scoped.labelled hscope hbody).mono ha.extends
  · intro w d _ hi e he
    exact (hi e he).mono ⟨le_rfl, fun _ _ => rfl, fun _ => id⟩

/-! ### The order at the socket -/

/-- The second datagram is not a payload of the `Conn` whose teardown the first one announces. -/
def Handed.Before (d e : Handed) : Prop := ∀ c, d.discFor = some c → e.writer ≠ some c

theorem handed_pairwise (h : system.Reach ok w) :
    w.shared.hist.handed.Pairwise Handed.Before := by
  refine system_invariant (I := fun w => w.shared.hist.handed.Pairwise Handed.Before) ?_ ?_ ?_ h
  · intro now session _
    exact List.Pairwise.nil
  · intro w t ch s pc hr hi _ _ ha
    change s.hist.handed.Pairwise Handed.Before
    rcases ha.handed with hsame | ⟨q, k, hpc, hnew⟩
    · rw [hsame]
      exact hi
    · rw [hnew]
      refine List.pairwise_append.mpr ⟨hi, List.pairwise_singleton _ _, ?_⟩
      intro d hd e he c hdc hec
      obtain rfl := List.mem_singleton.mp he
      -- the payload in hand belongs to a writer that was cleared
      have hclear : (w.thr t).cleared = some c := by
        rw [hpc]
        exact hec
      exact cleared_no_disc hr hclear d hd hdc
  · intro w d _ hi
    exact hi

/-- **No data after a disconnect.**  In every reachable state, in the sequence of datagrams handed
to the UDP socket no payload written by a `Conn` comes after a DISC that announced the teardown of
that `Conn`.  Every payload and every status packet in the sequence carries its label. -/
theorem no_payload_after_disc (h : system.Reachable w) :
    (∀ (i j : ℕ) (d e : Handed) (c : ConnId), w.shared.hist.handed[i]? = some d →
      w.shared.hist.handed[j]? = some e → d.discFor = some c → e.writer = some c → j ≤ i) ∧
    ∀ d ∈ w.shared.hist.handed, d.Labelled w.shared := by
  refine ⟨fun i j d e c hi hj hd he => ?_, handed_labelled h⟩
  by_contra hlt
  obtain ⟨hil, rfl⟩ := List.getElem?_eq_some_iff.mp hi
  obtain ⟨hjl, rfl⟩ := List.getElem?_eq_some_iff.mp hj
  exact List.pairwise_iff_getElem.mp (handed_pairwise h) i j hil hjl (by omega) c hd he

/-- A `Conn` writes, and while its second write waits for the permit, `Conn.Close` sets the flag;
the writer wins the permit before the DISC does, and releases it without sending its payload. -/
def lateWriteScript : List (Label Choice Time) :=
  grantScript 2 7 ++
    acts 3 (.call (.write 0 [1, 2]) :: gos 5 ++ [.select .permit] ++ gos 3 ++ [.udp .ok, .go,
      .udp .ok] ++ gos 5) ++
    acts 3 (.call (.write 0 [3]) :: gos 5) ++ acts 4 (.call (.connClose 0) :: gos 7) ++
    acts 3 (.select .permit :: gos 3 ++ [.udp .ok, .go]) ++
    acts 4 (gos 2 ++ [.udp .ok, .go])

/-- Only the first write and the DISC reach the socket. -/
theorem no_payload_after_disc_lateWrite :
    ∃ w, system.exec (fun _ _ => True) (start 1 newSession) lateWriteScript = some w ∧
      w.shared.hist.handed.map (fun d => (d.writer, d.discFor)) =
        [(none, none), (some 0, none), (none, some 0)] ∧
      ∀ (i j : ℕ) (d e : Handed) (c : ConnId), w.shared.hist.handed[i]? = some d →
        w.shared.hist.handed[j]? = some e → d.discFor = some c → e.writer = some c → j ≤ i := by
  have hrun : (system.exec (fun _ _ => True) (start 1 newSession) lateWriteScript).map (fun w =>
      w.shared.hist.handed.map fun d => (d.writer, d.discFor)) =
        some [(none, none), (some 0, none), (none, some 0)] := by
    decide +kernel
  obtain ⟨w, hw, he⟩ := Option.map_eq_some_iff.mp hrun
  exact ⟨w, hw, he, (no_payload_after_disc (reach_of_exec (by decide) hw)).1⟩

end DahuaP2p.Tunnel
