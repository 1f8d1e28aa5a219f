import DahuaP2p.HandshakeDialogue
import DahuaP2p.TunnelAcks

/-! # The life of a session

`ConnectWithConfig` hands the session of the handshake to a tunnel.  The handshake has used it from
one goroutine, in the tunnel the reader and all the senders share it.  `session_life` says that the
two are one life: a single run of sends and receives, in which the packets of the tunnel go on where
those of the handshake ended. -/

namespace DahuaP2p.Tunnel

open BigEndian Ptcp Threads

variable {ok : World Shared Pc → Label Choice Time → Prop} {w : World Shared Pc} {a : AckLog}
  {s s' : Shared} {pc pc' : Pc}

/-- Since the handshake the session had this run: it built the packets of the tunnel, and received
those that the reader has counted. -/
def Lived (s : Shared) (a : AckLog) (es : List Event) : Prop :=
  s.hist.initial.run es = (s.session, s.hist.built) ∧ received es = a.counted

/-- An action sends or receives one packet, or leaves the session alone. -/
theorem Acts.lived (h : Acts s pc s' pc') {es : List Event} (hi : Lived s a es) :
    ∃ es, Lived s' (pc.note s a) es := by
  obtain ⟨hrun, hrecv⟩ := hi
  rcases h with ⟨rfl, h⟩ | h
  · cases h <;> exact ⟨es, hrun, hrecv⟩
  · cases h with
    | sendBuild k =>
        refine ⟨es ++ [.send k.body], ?_, ?_⟩
        · simp [Session.run_append, hrun, Session.run, Session.step]
        · have hsame : received (es ++ [.send k.body]) = received es := by simp [received]
          rw [hsame, hrecv]
          cases k <;> rfl
    | readerCount q =>
        refine ⟨es ++ [.recv q], ?_, ?_⟩
        · simp [Session.run_append, hrun, Session.run, Session.step]
        · simp only [Pc.note, ← hrecv]
          simp [received]
    | _ => exact ⟨es, hrun, hrecv⟩

theorem lived (h : ackSystem.Reach (fun p => ok p.1) (w, a)) : ∃ es, Lived w.shared a es := by
  refine ackSystem_invariant (I := fun w a => ∃ es, Lived w.shared a es) ?_ ?_ ?_ h
  · intro now session
    exact ⟨[], rfl, rfl⟩
  · rintro w a t c s pc _ ⟨es, hi⟩ _ _ ha
    exact ha.lived hi
  · rintro w a d ⟨es, hi⟩
    exact ⟨es, hi⟩

/-- **The life of a session.**  Take a tunnel at any time of a run that it has started with the
session of a handshake.  This session was opened with a sign that the socket of the relay has
received from the agent, by the last turns of the socket of the device.  Since its SYNC it had one
run, of the turns of the handshake and then those of the tunnel: it sent the packets of the
handshake and those that the tunnel has built, in this order, and received the packets of the
handshake and those that the reader has counted. -/
theorem session_life {lib : Dh.Libs} {opts : Dh.HandshakeOptions} {att : ℕ → Dh.Attempt}
    {net : Dh.Net} {result : Dh.HandshakeResult} {v : Dh.World}
    (hshake : Dh.handshake lib opts att (Dh.World.start net) = (.ok result, v))
    (h : ackSystem.Reach (fun p => ok p.1) (w, a))
    (hstart : w.shared.hist.initial = result.session) :
    ∃ (agent : Dh.UDPAddr) (sign : Bytes) (c₀ : Dh.UDPClient) (t : Dh.Transcript)
      (es : List Event),
      (v.net.sockets 1).client.raddr = some agent ∧
      Dh.Signed (Dh.inboxOf opts net .p2pClient) agent sign ∧
      c₀.inbox <:+ Dh.inboxOf opts net .deviceClient ∧
      Dh.Exchange c₀ t.turns (v.net.sockets 2).client ∧
      t.Authenticates sign ∧
      newSession.run (t.turns.filterMap Dh.Turn.event ++ es) =
        (w.shared.session, t.turns.filterMap Dh.Turn.packet ++ w.shared.hist.built) ∧
      received es = a.counted := by
  obtain ⟨sign, ⟨agent, hagent, hsigned⟩, c₀, t, hunread, ht, hfollows⟩ :=
    Dh.handshake_provenance hshake
  obtain ⟨es, hrun, hrecv⟩ := lived h
  refine ⟨agent, sign, c₀, t, es, hagent, hsigned, hunread, hfollows.exchange, ht, ?_, hrecv⟩
  rw [Session.run_append, hfollows.counters, ← hstart, hrun]

/-- What the device sends after the service has answered. -/
def deviceReplies : List Dh.Event :=
  [.ok (Dh.cameraPub, List.replicate 20 0), .error "i/o timeout", Dh.peerPacket newSyncBody,
    Dh.peerPacket (newCommandBody (Dh.command 0x1a))]

/-- The session after this handshake: it has sent three packets and received two. -/
def handedOver : Session := { sent := 29, recv := 16, count := 2, id := 3 }

/-- A tunnel that goes on from there and sends a heartbeat. -/
theorem session_life_heartbeat :
    ∃ (w : World Shared Pc) (a : AckLog) (sign : Bytes) (c₀ : Dh.UDPClient) (t : Dh.Transcript)
      (es : List Event),
      w.shared.hist.initial = handedOver ∧ w.shared.hist.built.length = 1 ∧
        c₀.inbox <:+ Dh.inboxOf Dh.serviceOptions (Dh.serviceNet deviceReplies) .deviceClient ∧
        t.Authenticates sign ∧ received es = a.counted ∧
        newSession.run (t.turns.filterMap Dh.Turn.event ++ es) =
          (w.shared.session, t.turns.filterMap Dh.Turn.packet ++ w.shared.hist.built) := by
  have hsession : (Dh.handshake Dh.serviceLibs Dh.serviceOptions Dh.cameraAttempt
      (Dh.World.start (Dh.serviceNet deviceReplies))).1.toOption.map (·.session) =
        some handedOver := by
    decide +kernel
  have hrun : (ackSystem.exec (fun p => WritesSucceed p.1) (start 1 handedOver, {})
      (heartbeatRound .ok)).map
      (fun p => (p.1.shared.hist.initial, p.1.shared.hist.built.length)) =
        some (handedOver, 1) := by
    decide +kernel
  obtain ⟨result, hresult, hs⟩ := Option.map_eq_some_iff.mp hsession
  obtain ⟨⟨w, a⟩, hexec, heq⟩ := Option.map_eq_some_iff.mp hrun
  simp only [Prod.mk.injEq] at heq
  have ha : ackSystem.Reach (fun p => WritesSucceed p.1) (w, a) :=
    System.Reach.exec (.init ⟨⟨1, handedOver, by decide, rfl⟩, rfl⟩) hexec
  rcases Programs.Prog.ends (Dh.handshake Dh.serviceLibs Dh.serviceOptions Dh.cameraAttempt)
    (Dh.World.start (Dh.serviceNet deviceReplies)) with ⟨r, v, hshake⟩ | ⟨e, v, hshake⟩
  · rw [hshake] at hresult
    obtain rfl := Option.some.inj hresult
    obtain ⟨_, sign, c₀, t, es, _, _, hunread, _, ht, hes, hrecv⟩ :=
      session_life hshake ha (heq.1.trans hs.symm)
    exact ⟨w, a, sign, c₀, t, es, heq.1, heq.2, hunread, ht, hrecv, hes⟩
  · rw [hshake] at hresult
    cases hresult

end DahuaP2p.Tunnel
