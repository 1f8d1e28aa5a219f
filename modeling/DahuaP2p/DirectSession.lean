import DahuaP2p.DirectHandshake

/-! # The session of the direct handshake

From its SYNC on `performDirectHandshake` reads in five phases, and each of them has to feed the
counters of the session.

* `Exchange`: the packets sent and the reads made, turn by turn, from one client to another.
* `Follows`: the counters of a session are those of the turns so far.  Every send and every read of
  the handshake keeps this (`Follows.send`, `Follows.read`), and so do its loops.
* `Transcript`: the turns of a handshake that succeeds.  `session_in_step` puts these together: the
  device has answered the SYNC and the sign, and no packet read since the SYNC is left uncounted or
  counted twice. -/

namespace DahuaP2p.Dh

open BigEndian Ptcp Programs Prog UDPClient

/-! ### Turns -/

/-- A packet that is sent, or a read and what it returns. -/
inductive Turn where
  | send (packet : Packet)
  | read (result : Except IoError Bytes)

/-- What a turn is for a session: a read counts if it returns a packet. -/
def Turn.event : Turn → Option Ptcp.Event
  | send packet => some (.send packet.body)
  | read (.ok data) => (parsePacket data).toOption.map .recv
  | read (.error _) => none

def Turn.packet : Turn → Option Packet
  | send packet => some packet
  | read _ => none

/-- The client `c₀` gets to a client by exactly these turns. -/
inductive Exchange (c₀ : UDPClient) : List Turn → UDPClient → Prop
  | nil : Exchange c₀ [] c₀
  | send {turns : List Turn} {c c' : UDPClient} {packet : Packet} : Exchange c₀ turns c →
      UDPClient.send packet.serialize c = (.ok (), c') → Exchange c₀ (turns ++ [.send packet]) c'
  | read {turns : List Turn} {c c' : UDPClient} {result : Except IoError Bytes} :
      Exchange c₀ turns c → recv c = (result, c') → Exchange c₀ (turns ++ [.read result]) c'

/-- After the turns from `c₀` to `c` a new session has become `session`, and has made the packets
that were sent. -/
structure Follows (c₀ : UDPClient) (session : Session) (turns : List Turn) (c : UDPClient) :
    Prop where
  exchange : Exchange c₀ turns c
  counters : newSession.run (turns.filterMap Turn.event) = (session, turns.filterMap Turn.packet)

/-- The session after a read. -/
def countRead (session : Session) : Except IoError Bytes → Session
  | .ok data => countReply session data
  | .error _ => session

section follows
variable {c₀ c c' : UDPClient} {session : Session} {turns : List Turn} {data : Bytes}

theorem countRead_of_packet {packet : Packet} (h : parsePacket data = .ok packet) :
    countRead session (.ok data) = session.recvPacket packet := by
  simp only [countRead, countReply, h]

theorem countRead_of_no_packet {e : ParseError} (h : parsePacket data = .error e) :
    countRead session (.ok data) = session := by
  simp only [countRead, countReply, h]

theorem Follows.start : Follows c₀ newSession [] c₀ := ⟨.nil, rfl⟩

theorem Follows.send_of_ok (h : Follows c₀ session turns c) (body : Body)
    (hsend : UDPClient.send (session.send body).2.serialize c = (.ok (), c')) :
    Follows c₀ (session.send body).1 (turns ++ [.send (session.send body).2]) c' := by
  refine ⟨h.exchange.send hsend, ?_⟩
  rw [List.filterMap_append, List.filterMap_append, Session.run_append, h.counters]
  rfl

theorem Follows.read_of_eq {result : Except IoError Bytes} (h : Follows c₀ session turns c)
    (hrecv : recv c = (result, c')) :
    Follows c₀ (countRead session result) (turns ++ [.read result]) c' := by
  refine ⟨h.exchange.read hrecv, ?_⟩
  rw [List.filterMap_append, List.filterMap_append, Session.run_append, h.counters]
  cases result with
  | error e => rfl
  | ok data =>
      cases hparse : parsePacket data with
      | error e =>
          simp [Turn.event, Turn.packet, countRead_of_no_packet hparse, hparse, Except.toOption]
      | ok packet =>
          simp [Turn.event, Turn.packet, countRead_of_packet hparse, hparse, Except.toOption,
            Session.run, Session.step]

variable (c₀ session turns) in
theorem Follows.send (body : Body) (g : IoError → HandshakeError) :
    Triple (Follows c₀ session turns) ((UDPClient.send (session.send body).2.serialize).wrap g)
      (fun _ => Follows c₀ (session.send body).1 (turns ++ [.send (session.send body).2]))
      (fun _ => True) := by
  refine Triple.wrap (fun c h => ?_) g
  rcases ends (UDPClient.send (session.send body).2.serialize) c with ⟨_, c', hs⟩ | ⟨e, c', hs⟩
  · rw [hs]
    exact h.send_of_ok body hs
  · rw [hs]
    trivial

variable (c₀ session turns) in
theorem Follows.read : Triple (Follows c₀ session turns)
    (recv.attempt : Prog HandshakeError UDPClient _)
    (fun result => Follows c₀ (countRead session result) (turns ++ [.read result]))
    (fun _ => True) :=
  fun _ h => h.read_of_eq rfl

variable (c₀ session turns) in
theorem Follows.read_wrap (g : IoError → HandshakeError) : Triple (Follows c₀ session turns)
    (recv.wrap g)
    (fun data => Follows c₀ (countRead session (.ok data)) (turns ++ [.read (.ok data)]))
    (fun _ => True) := by
  refine Triple.wrap (fun c h => ?_) g
  rcases ends recv c with ⟨data, c', hr⟩ | ⟨e, c', hr⟩
  · rw [hr]
    exact h.read_of_eq hr
  · rw [hr]
    trivial

end follows

/-! ### The reads of the handshake -/

/-- The device acknowledges the sign. -/
def Acknowledged (data : Bytes) : Prop := ∃ packet, parsePacket data = .ok packet ∧ authOK packet

variable (c₀ : UDPClient)

theorem drainSession_follows : ∀ n session turns, Triple (Follows c₀ session turns)
    (drainSession n session)
    (fun session' c => ∃ reads : List (Except IoError Bytes), reads.length ≤ n ∧
      Follows c₀ session' (turns ++ reads.map .read) c) (fun _ => True)
  | 0, session, turns => .pure fun c h =>
      ⟨[], Nat.le_refl 0, by rwa [List.map_nil, List.append_nil]⟩
  | n + 1, session, turns => by
      refine (Follows.read c₀ session turns).bind fun result => ?_
      cases result with
      | error e => exact .pure fun c h => ⟨[.error e], Nat.le_add_left 1 n, h⟩
      | ok data =>
          refine (drainSession_follows n _ _).mono (fun _ h => h) fun session' c => ?_
          rintro ⟨reads, hlen, h⟩
          refine ⟨.ok data :: reads, Nat.succ_le_succ hlen, ?_⟩
          rwa [List.append_assoc] at h

theorem awaitAuth_follows : ∀ n session turns, Triple (Follows c₀ session turns)
    (awaitAuth n session)
    (fun r c => r.2 = true → ∃ (reads : List (Except IoError Bytes)) (answer : Bytes),
      reads.length < n ∧ Acknowledged answer ∧
        Follows c₀ r.1 (turns ++ reads.map .read ++ [.read (.ok answer)]) c) (fun _ => True)
  | 0, session, turns => .pure fun c h => nofun
  | n + 1, session, turns => by
      -- one more read in front of those of the next rounds
      have hnext : ∀ result, Triple
          (Follows c₀ (countRead session result) (turns ++ [.read result]))
          (awaitAuth n (countRead session result)) (fun r c => r.2 = true →
            ∃ (reads : List (Except IoError Bytes)) (answer : Bytes), reads.length < n + 1 ∧
              Acknowledged answer ∧
              Follows c₀ r.1 (turns ++ reads.map .read ++ [.read (.ok answer)]) c)
          (fun _ => True) := by
        intro result
        refine (awaitAuth_follows n _ _).mono (fun _ h => h) fun r c h hok => ?_
        obtain ⟨reads, answer, hlen, hack, h⟩ := h hok
        refine ⟨result :: reads, answer, Nat.succ_lt_succ hlen, hack, ?_⟩
        rwa [List.append_assoc turns] at h
      refine (Follows.read c₀ session turns).bind fun result => ?_
      cases result with
      | error e => exact hnext (.error e)
      | ok data =>
          have hcount := hnext (.ok data)
          cases hparse : parsePacket data with
          | error e =>
              simp only [hparse]
              rwa [countRead_of_no_packet hparse] at hcount ⊢
          | ok packet =>
              simp only [hparse]
              rw [countRead_of_packet hparse] at hcount ⊢
              split
              · rename_i hok
                exact .pure fun c h _ => ⟨[], data, Nat.succ_pos n, ⟨packet, hparse, hok⟩,
                  by rwa [List.map_nil, List.append_nil]⟩
              · exact hcount

theorem acknowledge_follows (session : Session) (turns : List Turn) :
    Triple (Follows c₀ session turns) (acknowledge session)
      (fun session' c => ∃ (ack : Packet) (more : List (Except IoError Bytes)),
        ack.body = newCommandBody (command 0x1b) ∧ more.length ≤ 4 ∧
          Follows c₀ session' (turns ++ .send ack :: more.map .read) c) (fun _ => True) := by
  refine (Follows.send c₀ session turns _ _).bind fun _ =>
    (Follows.read c₀ _ _).bind fun result => ?_
  generalize hack : (session.send (newCommandBody (command 0x1b))).2 = ack
  have hmore : ∀ session' c, (∃ reads : List (Except IoError Bytes), reads.length ≤ 3 ∧
      Follows c₀ session' (turns ++ [.send ack] ++ [.read result] ++ reads.map .read) c) →
      ∃ (ack : Packet) (more : List (Except IoError Bytes)),
        ack.body = newCommandBody (command 0x1b) ∧ more.length ≤ 4 ∧
          Follows c₀ session' (turns ++ .send ack :: more.map .read) c := by
    rintro session' c ⟨reads, hlen, h⟩
    refine ⟨ack, result :: reads, by rw [← hack]; rfl, Nat.succ_le_succ hlen, ?_⟩
    rwa [List.append_assoc, List.append_assoc] at h
  cases result with
  | error e => exact (drainSession_follows c₀ 3 _ _).mono (fun _ h => h) hmore
  | ok data => exact (drainSession_follows c₀ 3 _ _).mono (fun _ h => h) hmore

/-! ### Transcripts -/

/-- The turns of a handshake: SYNC and its answer, the sign and the reads up to the one that
acknowledges it, the last command and the reads after it. -/
structure Transcript where
  sync : Packet
  syncResp : Bytes
  auth : Packet
  reads : List (Except IoError Bytes)
  answer : Bytes
  ack : Packet
  more : List (Except IoError Bytes)

namespace Transcript

def turns (t : Transcript) : List Turn :=
  [.send t.sync, .read (.ok t.syncResp), .send t.auth] ++ t.reads.map .read ++
    [.read (.ok t.answer)] ++ .send t.ack :: t.more.map .read

/-- The device answers the SYNC at once and the sign within five reads. -/
structure Authenticates (t : Transcript) (sign : Bytes) : Prop where
  sync : t.sync.body = newSyncBody
  syncResp : ∃ packet, parsePacket t.syncResp = .ok packet ∧ packet.body.type = .sync
  auth : t.auth.body = newCommandBody (command 0x19 ++ sign)
  reads : t.reads.length < 5
  answer : ∃ packet, parsePacket t.answer = .ok packet ∧ packet.body.type = .command ∧
    packet.body.command.head? = some 0x1A
  ack : t.ack.body = newCommandBody (command 0x1b)
  more : t.more.length ≤ 4

end Transcript

theorem authenticate_follows (sign : Bytes) (session : Session) {sync : Packet} {syncResp : Bytes}
    (hsync : sync.body = newSyncBody)
    (hresp : ∃ packet, parsePacket syncResp = .ok packet ∧ packet.body.type = .sync) :
    Triple (Follows c₀ session [.send sync, .read (.ok syncResp)]) (authenticate sign session)
      (fun session' c => ∃ t : Transcript, t.Authenticates sign ∧ Follows c₀ session' t.turns c)
      (fun _ => True) := by
  refine (Follows.send c₀ session _ _ _).bind fun _ => (awaitAuth_follows c₀ 5 _ _).bind fun r => ?_
  obtain ⟨session', ok⟩ := r
  cases ok with
  | false => exact .fail fun _ _ => trivial
  | true =>
      intro c h
      obtain ⟨reads, answer, hlen, ⟨packet, hparse, hok⟩, h⟩ := h rfl
      refine (acknowledge_follows c₀ session' _).mono (fun _ h => h) ?_ c h
      rintro session'' c ⟨ack, more, hack, hmore, h⟩
      exact ⟨⟨sync, syncResp, _, reads, answer, ack, more⟩,
        ⟨hsync, hresp, rfl, hlen, ⟨packet, hparse, of_decide_eq_true hok⟩, hack, hmore⟩, h⟩

theorem openSession_follows (sign : Bytes) :
    Triple (Follows c₀ newSession []) (openSession sign)
      (fun session c => ∃ t : Transcript, t.Authenticates sign ∧ Follows c₀ session t.turns c)
      (fun _ => True) := by
  refine (Follows.send c₀ newSession [] _ _).bind fun _ =>
    (Follows.read_wrap c₀ _ _ _).bind fun syncResp => ?_
  cases hparse : parsePacket syncResp with
  | error e => exact .fail fun _ _ => trivial
  | ok packet =>
      rw [countRead_of_packet hparse]
      dsimp only
      split
      · rename_i hsync
        exact authenticate_follows c₀ sign _ rfl ⟨packet, hparse, hsync⟩
      · exact .fail fun _ _ => trivial

/-- The phases of an attempt that succeeds. -/
theorem perform_follows {lib : NetLib} {d : Device} {a : Attempt} {c c' : UDPClient}
    {session : Session} (h : performDirectHandshake lib d a c = (.ok session, c')) :
    ∃ src resp c₁ c₂ c₀, holePunch lib d a c = (.ok (src, resp), c₁) ∧
      UDPClient.send (stunConfirmation d a (slice resp 8 20)) { c₁ with raddr := some src } =
        (.ok (), c₂) ∧
      drainStun 5 c₂ = (.ok (), c₀) ∧
      ∃ t : Transcript, t.Authenticates d.sign ∧ Follows c₀ session t.turns c' := by
  obtain ⟨⟨src, resp⟩, c₁, hpunch, h⟩ := of_bind_ok h
  obtain ⟨_, _, hconnect, h⟩ := of_bind_ok h
  cases hconnect
  unfold establish at h
  split at h
  · cases h
  · obtain ⟨_, c₂, hsend, h⟩ := of_bind_ok h
    obtain ⟨_, c₀, hdrain, h⟩ := of_bind_ok h
    exact ⟨src, resp, c₁, c₂, c₀, hpunch, of_wrap_ok hsend, hdrain,
      (openSession_follows c₀ d.sign).of_ok .start h⟩

/-- **The session is authenticated and in step.**  If the handshake returns a session, it had
punched the hole, confirmed it and dropped what else was left of that.  Since then the device has
answered the SYNC at once with a SYNC and the sign within five reads with command `0x1A`, and the
session is what a new one becomes by the three sends and by receiving every packet read. -/
theorem session_in_step {lib : NetLib} {d : Device} {a : Attempt} {c c' : UDPClient}
    {session : Session} (h : performDirectHandshake lib d a c = (.ok session, c')) :
    ∃ src resp c₁ c₂ c₀, holePunch lib d a c = (.ok (src, resp), c₁) ∧
      UDPClient.send (stunConfirmation d a (slice resp 8 20)) { c₁ with raddr := some src } =
        (.ok (), c₂) ∧
      drainStun 5 c₂ = (.ok (), c₀) ∧
      ∃ t : Transcript, t.Authenticates d.sign ∧ Exchange c₀ t.turns c' ∧
        newSession.run (t.turns.filterMap Turn.event) =
          (session, t.turns.filterMap Turn.packet) := by
  obtain ⟨src, resp, c₁, c₂, c₀, hpunch, hsend, hdrain, t, ht, hfollows⟩ := perform_follows h
  exact ⟨src, resp, c₁, c₂, c₀, hpunch, hsend, hdrain, t, ht, hfollows.exchange, hfollows.counters⟩

/-- A camera that answers the hole punch, the SYNC and, after an empty packet, the sign. -/
def cameraReplies : List Event :=
  [.ok (cameraPub, List.replicate 20 0), .error "i/o timeout"] ++
    [(newSession.send newSyncBody).2, (newSession.send (newCommandBody [])).2,
      (newSession.send (newCommandBody (command 0x1a))).2].map
        fun packet => .ok (cameraPub, packet.serialize)

theorem session_in_step_cameraReplies :
    ∃ session c' t c₀, performDirectHandshake cameraLib camera (cameraAttempt 1)
        (cameraClient cameraReplies) = (.ok session, c') ∧
      Transcript.Authenticates t camera.sign ∧ Exchange c₀ t.turns c' ∧
      newSession.run (t.turns.filterMap Turn.event) = (session, t.turns.filterMap Turn.packet) := by
  have hok : (performDirectHandshake cameraLib camera (cameraAttempt 1)
      (cameraClient cameraReplies)).1.isOk = true := by
    decide +kernel
  obtain ⟨session, c', hrun⟩ : ∃ session c', performDirectHandshake cameraLib camera
      (cameraAttempt 1) (cameraClient cameraReplies) = (.ok session, c') := by
    generalize performDirectHandshake cameraLib camera (cameraAttempt 1)
      (cameraClient cameraReplies) = r at hok
    obtain ⟨_ | session, c'⟩ := r
    · cases hok
    · exact ⟨session, c', rfl⟩
  obtain ⟨_, _, _, _, c₀, _, _, _, t, ht, hexchange, hcounters⟩ := session_in_step hrun
  exact ⟨session, c', t, c₀, hrun, ht, hexchange, hcounters⟩

end DahuaP2p.Dh
