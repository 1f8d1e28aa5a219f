import DahuaP2p.Session
import DahuaP2p.UdpClient

/-! # The direct handshake (step 12 of `dh/handshake.go`)

With the device's public and LAN address known, `performDirectHandshake` punches a hole to the
device and authenticates a PTCP session; `Handshake` tries it up to three times.

* `holePunch`: the STUN request goes to the remote address of the client, which is the public
  address at first, and to the LAN address; the first reply from one of the two is taken.
* The client is then connected to the address that answered (`establish` goes on from there), and
  **stays** connected to it when the attempt fails later.  So the next attempt sends its request to
  that address and not to the public one: `rebound_attempt` is a run of this kind, and
  `punches_both` shows that it is the only one.
* `Calls`: the attempts of the retry loop. -/

namespace DahuaP2p.Dh

open BigEndian Ptcp Programs Prog UDPClient

/-! ### Parameters and errors -/

/-- What `Handshake` has found out about the device. -/
structure Device where
  cid : Bytes
  /-- `devicePubAddr` -/
  pubAddr : String
  /-- `deviceLAddr` -/
  lAddr : String
  sign : Bytes

/-- What one attempt draws at random, and what the lookup of the LAN address returns in it. -/
structure Attempt where
  cookie : Bytes
  transID : Bytes
  resolved : Option UDPAddr

inductive HandshakeError where
  | invalidPubAddr (address : String)
  | sendStun (e : IoError)
  | noDeviceResponse
  | invalidResponse
  | sendConfirmation (e : IoError)
  | sendSync (e : IoError)
  | readSync (e : IoError)
  | parseSync (e : ParseError)
  | expectedSync
  | sendAuth (e : IoError)
  | authNotAcknowledged
  | sendAck (e : IoError)
deriving DecidableEq, Repr

def HandshakeError.text : HandshakeError → String
  | invalidPubAddr address =>
      "invalid device public address " ++ address.quote ++ ": invalid response from server"
  | sendStun e => "failed to send STUN request: " ++ e.text
  | noDeviceResponse =>
      "timeout waiting for device response (try relay mode): connection timeout"
  | invalidResponse => "invalid response from server"
  | sendConfirmation e => "failed to send STUN confirmation: " ++ e.text
  | sendSync e => "failed to send PTCP sync: " ++ e.text
  | readSync e => "failed to read PTCP sync response: " ++ e.text
  | parseSync e => "failed to parse PTCP sync response: " ++ e.text
  | expectedSync => "expected SYNC response"
  | sendAuth e => "failed to send auth: " ++ e.text
  | authNotAcknowledged => "device did not acknowledge auth: authentication failed"
  | sendAck e => "failed to send ack: " ++ e.text

/-! ### Hole punch -/

def Device.invertedCID (d : Device) : Bytes := d.cid.map (~~~ ·)

/-- The STUN request of an attempt, with the encoded public address. -/
def stunRequest (d : Device) (a : Attempt) (encodedAddr : Bytes) : Bytes :=
  [0xff, 0xfe, 0xff, 0xe7] ++ a.cookie ++ a.transID ++ [0x7f, 0xd5, 0xff, 0xf7] ++ d.invertedCID ++
    [0xff, 0xfb, 0xff, 0xf7, 0xff, 0xfe] ++ encodedAddr

def stunConfirmation (d : Device) (a : Attempt) (rtransID : Bytes) : Bytes :=
  [0xfe, 0xfe, 0xff, 0xf3] ++ a.cookie ++ rtransID ++ [0x7f, 0xd6, 0xff, 0xf7] ++ d.invertedCID

/-- `localAddr`: the LAN address, unless it is the public one or does not resolve. -/
def localAddr (d : Device) (a : Attempt) : Option UDPAddr :=
  if d.lAddr ≠ d.pubAddr ∧ d.lAddr ≠ "" then a.resolved else none

/-- The second request, whose error is ignored. -/
def sendLocal (data : Bytes) : Option UDPAddr → Prog HandshakeError UDPClient Unit
  | none => pure ()
  | some addr => do
      let _ ← (sendTo data addr).attempt
      pure ()

/-- The first datagram from the remote address or the LAN address; any error of the read is
reported as a timeout. -/
def awaitReply (local? : Option UDPAddr) : Prog HandshakeError UDPClient (UDPAddr × Bytes) :=
  fun c =>
    match readUntil
      (fun addr => sameUDPAddr (some addr) c.raddr || sameUDPAddr (some addr) local?) c.inbox with
    | (.ok reply, rest) => (.ok reply, { c with inbox := rest })
    | (.error _, rest) => (.error .noDeviceResponse, { c with inbox := rest })

/-- `performDirectHandshake` up to the first reply. -/
def holePunch (lib : NetLib) (d : Device) (a : Attempt) :
    Prog HandshakeError UDPClient (UDPAddr × Bytes) :=
  match ipToBytes lib d.pubAddr with
  | none => fail (.invalidPubAddr d.pubAddr)
  | some encodedAddr => do
      let data := stunRequest d a encodedAddr
      (send data).wrap .sendStun
      sendLocal data (localAddr d a)
      awaitReply (localAddr d a)

/-! ### Session -/

/-- Read and drop up to `n` datagrams. -/
def drainStun : ℕ → Prog HandshakeError UDPClient Unit
  | 0 => pure ()
  | n + 1 => do
      match ← recv.attempt with
      | .error _ => pure ()
      | .ok _ => drainStun n

/-- `session.Recv`, if the datagram is a packet. -/
def countReply (session : Session) (data : Bytes) : Session :=
  match parsePacket data with
  | .ok packet => session.recvPacket packet
  | .error _ => session

/-- The device acknowledges the sign with command `0x1A`. -/
def authOK (packet : Packet) : Bool :=
  packet.body.type = .command ∧ packet.body.command.head? = some 0x1A

/-- Up to `n` reads for the answer to command `0x19`. -/
def awaitAuth : ℕ → Session → Prog HandshakeError UDPClient (Session × Bool)
  | 0, session => pure (session, false)
  | n + 1, session => do
      match ← recv.attempt with
      | .error _ => awaitAuth n session
      | .ok data =>
          match parsePacket data with
          | .error _ => awaitAuth n session
          | .ok packet =>
              if authOK packet then pure (session.recvPacket packet, true)
              else awaitAuth n (session.recvPacket packet)

/-- Count up to `n` more packets. -/
def drainSession : ℕ → Session → Prog HandshakeError UDPClient Session
  | 0, session => pure session
  | n + 1, session => do
      match ← recv.attempt with
      | .error _ => pure session
      | .ok data => drainSession n (countReply session data)

/-- A command without arguments. -/
def command (tag : UInt8) : Bytes := tag :: List.replicate 11 0

/-- Command `0x1B`, its answer and what else the device has sent. -/
def acknowledge (session : Session) : Prog HandshakeError UDPClient Session := do
  let (session, ackPacket) := session.send (newCommandBody (command 0x1b))
  (send ackPacket.serialize).wrap .sendAck
  match ← recv.attempt with
  | .error _ => drainSession 3 session
  | .ok data => drainSession 3 (countReply session data)

/-- Command `0x19` with the sign. -/
def authenticate (sign : Bytes) (session : Session) : Prog HandshakeError UDPClient Session := do
  let (session, authPacket) := session.send (newCommandBody (command 0x19 ++ sign))
  (send authPacket.serialize).wrap .sendAuth
  let (session, ok) ← awaitAuth 5 session
  if ok then acknowledge session else fail .authNotAcknowledged

/-- The PTCP handshake: SYNC, then the authentication. -/
def openSession (sign : Bytes) : Prog HandshakeError UDPClient Session := do
  let (session, syncPacket) := newSession.send newSyncBody
  (send syncPacket.serialize).wrap .sendSync
  let syncResp ← recv.wrap .readSync
  match parsePacket syncResp with
  | .error e => fail (.parseSync e)
  | .ok packet =>
      if packet.body.type = .sync then authenticate sign (session.recvPacket packet)
      else fail .expectedSync

/-- `performDirectHandshake` from the first reply on, with the client connected to its source. -/
def establish (d : Device) (a : Attempt) (resp : Bytes) : Prog HandshakeError UDPClient Session :=
  if resp.length < 20 then fail .invalidResponse
  else do
    (send (stunConfirmation d a (slice resp 8 20))).wrap .sendConfirmation
    drainStun 5
    openSession d.sign

def performDirectHandshake (lib : NetLib) (d : Device) (a : Attempt) :
    Prog HandshakeError UDPClient Session := do
  let (respAddr, resp) ← holePunch lib d a
  connect respAddr
  establish d a resp

/-! ### Retries -/

def directRetries : ℕ := 3

/-- Attempt `k` and, when it fails, `n` more. -/
def directLoop (lib : NetLib) (d : Device) (att : ℕ → Attempt) :
    ℕ → ℕ → Prog HandshakeError UDPClient Session
  | 0, k => performDirectHandshake lib d (att k)
  | n + 1, k => do
      match ← (performDirectHandshake lib d (att k)).attempt with
      | .ok session => pure session
      | .error _ => directLoop lib d att n (k + 1)

/-- The retry loop of `Handshake`. -/
def directHandshake (lib : NetLib) (d : Device) (att : ℕ → Attempt) :
    Prog HandshakeError UDPClient Session := directLoop lib d att (directRetries - 1) 1

/-! ### What the client keeps -/

section frames

theorem sendLocal_extends (data : Bytes) (local? : Option UDPAddr) :
    (sendLocal data local?).Keeps Extends := by
  cases local? with
  | none => exact .pure ()
  | some addr => exact (writeTo_extends data addr).attempt.bind fun _ => .pure ()

theorem awaitReply_extends (local? : Option UDPAddr) : (awaitReply local?).Keeps Extends := by
  intro c
  unfold awaitReply
  split
  · exact ⟨rfl, List.prefix_rfl⟩
  · exact ⟨rfl, List.prefix_rfl⟩

theorem holePunch_extends (lib : NetLib) (d : Device) (a : Attempt) :
    (holePunch lib d a).Keeps Extends := by
  unfold holePunch
  split
  · exact .fail _
  · exact ((send_extends _).wrap _).bind fun _ =>
      (sendLocal_extends _ _).bind fun _ => awaitReply_extends _

end frames

/-! ### The phases after the first reply -/

/-- A property of programs that their composition preserves, and that reads and writes of a
connected client have. -/
structure ClientRule (P : ∀ α : Type, Prog HandshakeError UDPClient α → Prop) : Prop where
  pure {α : Type} (a : α) : P α (Pure.pure a)
  fail {α : Type} (e : HandshakeError) : P α (Prog.fail e)
  bind {α β : Type} {x : Prog HandshakeError UDPClient α}
    {f : α → Prog HandshakeError UDPClient β} : P α x → (∀ a, P β (f a)) → P β (x >>= f)
  send (data : Bytes) (g : IoError → HandshakeError) : P Unit ((UDPClient.send data).wrap g)
  attempt : P _ recv.attempt
  recv (g : IoError → HandshakeError) : P Bytes (UDPClient.recv.wrap g)

namespace ClientRule
variable {P : ∀ α : Type, Prog HandshakeError UDPClient α → Prop} (hP : ClientRule P)
include hP

theorem drainStun : ∀ n, P Unit (drainStun n)
  | 0 => hP.pure ()
  | n + 1 => by
      refine hP.bind hP.attempt fun r => ?_
      cases r with
      | error e => exact hP.pure ()
      | ok data => exact drainStun n

theorem awaitAuth : ∀ n session, P _ (awaitAuth n session)
  | 0, session => hP.pure _
  | n + 1, session => by
      refine hP.bind hP.attempt fun r => ?_
      cases r with
      | error e => exact awaitAuth n session
      | ok data =>
          dsimp only
          split
          · exact awaitAuth n session
          · split
            · exact hP.pure _
            · exact awaitAuth n _

theorem drainSession : ∀ n session, P _ (drainSession n session)
  | 0, session => hP.pure session
  | n + 1, session => by
      refine hP.bind hP.attempt fun r => ?_
      cases r with
      | error e => exact hP.pure session
      | ok data => exact drainSession n _

theorem acknowledge (session : Session) : P _ (acknowledge session) := by
  refine hP.bind (hP.send _ _) fun _ => hP.bind hP.attempt fun r => ?_
  cases r with
  | error e => exact hP.drainSession 3 _
  | ok data => exact hP.drainSession 3 _

theorem authenticate (sign : Bytes) (session : Session) : P _ (authenticate sign session) := by
  refine hP.bind (hP.send _ _) fun _ => hP.bind (hP.awaitAuth 5 _) fun r => ?_
  dsimp only
  split
  · exact hP.acknowledge _
  · exact hP.fail _

theorem openSession (sign : Bytes) : P _ (openSession sign) := by
  refine hP.bind (hP.send _ _) fun _ => hP.bind (hP.recv _) fun syncResp => ?_
  split
  · exact hP.fail _
  · split
    · exact hP.authenticate sign _
    · exact hP.fail _

theorem establish (d : Device) (a : Attempt) (resp : Bytes) : P _ (establish d a resp) := by
  unfold Dh.establish
  split
  · exact hP.fail _
  · exact hP.bind (hP.send _ _) fun _ => hP.bind (hP.drainStun 5) fun _ => hP.openSession d.sign

end ClientRule

theorem establish_extends (d : Device) (a : Attempt) (resp : Bytes) :
    (establish d a resp).Keeps Extends := by
  have hrule : ClientRule fun _ x => x.Keeps Extends :=
    { pure := .pure
      fail := .fail
      bind := .bind
      send := fun data g => (send_extends data).wrap g
      attempt := recv_extends.attempt
      recv := fun g => recv_extends.wrap g }
  exact hrule.establish d a resp

/-! ### One attempt -/

section attempt
variable {lib : NetLib} {d : Device} {a : Attempt} {c c' : UDPClient} {pub src : UDPAddr}
  {resp enc : Bytes}

/-- After a reply the client talks to its source, and goes on so whatever happens next. -/
theorem perform_of_reply (h : holePunch lib d a c = (.ok (src, resp), c')) :
    (performDirectHandshake lib d a c).2.raddr = some src ∧
      c'.sent <+: (performDirectHandshake lib d a c).2.sent := by
  have hrun : performDirectHandshake lib d a c =
      establish d a resp { c' with raddr := some src } := by
    unfold performDirectHandshake
    rw [bind_of_ok h]
    exact bind_of_ok rfl
  rw [hrun]
  exact establish_extends d a resp _

theorem perform_of_error {e : HandshakeError} (h : holePunch lib d a c = (.error e, c')) :
    performDirectHandshake lib d a c = (.error e, c') := bind_of_error h

theorem perform_sent :
    (holePunch lib d a c).2.sent <+: (performDirectHandshake lib d a c).2.sent := by
  rcases ends (holePunch lib d a) c with ⟨⟨src, resp⟩, c', h⟩ | ⟨e, c', h⟩
  · rw [h]
    exact (perform_of_reply h).2
  · rw [h, perform_of_error h]

/-- Once the request has gone to the remote address, it goes to the LAN address, and a reply is
awaited. -/
theorem holePunch_of_sent (hraddr : c.raddr = some pub) (henc : ipToBytes lib d.pubAddr = some enc)
    (hw : c.writes.headD none = none) :
    ∃ c' lan, holePunch lib d a c = awaitReply (localAddr d a) c' ∧ c'.raddr = some pub ∧
      c'.inbox = c.inbox ∧ c'.sent = c.sent ++ ⟨pub, stunRequest d a enc, none⟩ :: lan ∧
      ∀ addr, localAddr d a = some addr → ∃ err, lan = [⟨addr, stunRequest d a enc, err⟩] := by
  have hsend : send (stunRequest d a enc) c = (.ok (), { c with
      writes := c.writes.tail, sent := c.sent ++ [⟨pub, stunRequest d a enc, none⟩] }) :=
    (send_of_connected _ hraddr).trans (writeTo_of_ok _ pub hw)
  have hrun := bind_of_ok (f := fun _ => sendLocal (stunRequest d a enc) (localAddr d a) >>=
    fun _ => awaitReply (localAddr d a)) (wrap_of_ok (g := HandshakeError.sendStun) hsend)
  have hpunch : holePunch lib d a = ((send (stunRequest d a enc)).wrap .sendStun >>= fun _ =>
      sendLocal (stunRequest d a enc) (localAddr d a) >>= fun _ =>
        awaitReply (localAddr d a)) := by
    simp only [holePunch, henc]
  rw [hpunch, hrun]
  cases localAddr d a with
  | none => exact ⟨_, [], rfl, hraddr, rfl, rfl, fun addr h => nomatch h⟩
  | some addr =>
      refine ⟨_, [⟨addr, stunRequest d a enc, c.writes.tail.headD none⟩], rfl, hraddr, rfl, ?_, ?_⟩
      · simp [sendTo, writeTo]
      · rintro _ ⟨⟩
        exact ⟨_, rfl⟩

theorem awaitReply_of_accepts {local? : Option UDPAddr} {foreign rest : List Event}
    (hraddr : c.raddr = some pub) (hinbox : c.inbox = foreign ++ .ok (src, resp) :: rest)
    (hsrc : src = pub ∨ local? = some src)
    (hforeign : ∀ e ∈ foreign, ∃ addr data, e = .ok (addr, data) ∧ addr ≠ pub ∧
      local? ≠ some addr) :
    awaitReply local? c = (.ok (src, resp), { c with inbox := rest }) := by
  have hread : readUntil
      (fun addr => sameUDPAddr (some addr) c.raddr || sameUDPAddr (some addr) local?) c.inbox =
      (.ok (src, resp), rest) := by
    rw [hinbox]
    refine readUntil_of_accepts ?_ fun e he => ?_
    · rw [Bool.or_eq_true, sameUDPAddr_iff, sameUDPAddr_iff, hraddr]
      exact hsrc.imp_left fun (h : src = pub) => by rw [h]
    · obtain ⟨addr, data, rfl, hpub, hlocal⟩ := hforeign e he
      refine ⟨addr, data, rfl, Bool.eq_false_iff.mpr fun h => ?_⟩
      rw [Bool.or_eq_true, sameUDPAddr_iff, sameUDPAddr_iff, hraddr] at h
      rcases h with h | h
      · exact hpub (Option.some.inj h).symm
      · exact hlocal h
  simp only [awaitReply, hread]

end attempt

/-! ### The attempts of the loop -/

section loop
variable {lib : NetLib} {d : Device} {att : ℕ → Attempt} {ok : Attempt → UDPClient → Prop}
  {pub : UDPAddr} {c₀ c : UDPClient} {k : ℕ}

variable (lib d att ok c₀) in
/-- Attempt `k` of the loop finds the client `c`: all attempts before it have failed, in a
situation that meets `ok`. -/
inductive Calls : ℕ → UDPClient → Prop
  | first : Calls 1 c₀
  | again {k : ℕ} {c : UDPClient} {e : HandshakeError} : Calls k c → k < directRetries →
      ok (att k) c → (performDirectHandshake lib d (att k) c).1 = .error e →
      Calls (k + 1) (performDirectHandshake lib d (att k) c).2

/-- The loop ends with one of its attempts. -/
theorem directLoop_calls : ∀ n k c, k + n = directRetries →
    Calls lib d att (fun _ _ => True) c₀ k c → ∃ j c', Calls lib d att (fun _ _ => True) c₀ j c' ∧
      directLoop lib d att n k c = performDirectHandshake lib d (att j) c' := by
  intro n
  induction n with
  | zero => exact fun k c _ hc => ⟨k, c, hc, rfl⟩
  | succ n ih =>
      intro k c hn hc
      cases hr : performDirectHandshake lib d (att k) c with
      | mk r c' =>
          have hatt : (performDirectHandshake lib d (att k)).attempt c =
              ((.ok r : Except HandshakeError _), c') := attempt_of_eq hr
          have hrun := bind_of_ok (f := fun r => match r with
            | .ok session => pure session
            | .error _ => directLoop lib d att n (k + 1)) hatt
          cases r with
          | ok session => exact ⟨k, c, hc, hrun.trans hr.symm⟩
          | error e =>
              have hnext := hc.again (by omega) trivial (by rw [hr])
              rw [hr] at hnext
              obtain ⟨j, cj, hj, hloop⟩ := ih (k + 1) c' (by omega) hnext
              exact ⟨j, cj, hj, hrun.trans hloop⟩

theorem directHandshake_calls : ∃ k c, Calls lib d att (fun _ _ => True) c₀ k c ∧
    directHandshake lib d att c₀ = performDirectHandshake lib d (att k) c :=
  directLoop_calls _ 1 c₀ rfl .first

/-! ### Both addresses -/

variable (lib d) in
/-- The attempt sends its request to the public address, and to the LAN address if there is one,
and takes the first reply from either of them. -/
structure Punches (a : Attempt) (pub : UDPAddr) (c : UDPClient) : Prop where
  toPublic : ∃ enc rest, ipToBytes lib d.pubAddr = some enc ∧
    (performDirectHandshake lib d a c).2.sent =
      c.sent ++ ⟨pub, stunRequest d a enc, none⟩ :: rest
  toLocal : ∀ addr, localAddr d a = some addr → ∃ enc err rest,
    ipToBytes lib d.pubAddr = some enc ∧ (performDirectHandshake lib d a c).2.sent =
      c.sent ++ ⟨pub, stunRequest d a enc, none⟩ :: ⟨addr, stunRequest d a enc, err⟩ :: rest
  reply : ∀ foreign src resp rest, c.inbox = foreign ++ .ok (src, resp) :: rest →
    (∀ e ∈ foreign, ∃ addr data, e = .ok (addr, data) ∧ addr ≠ pub ∧
      localAddr d a ≠ some addr) →
    src = pub ∨ localAddr d a = some src →
    (holePunch lib d a c).1 = .ok (src, resp) ∧
      (performDirectHandshake lib d a c).2.raddr = some src

variable (lib d) in
/-- The attempt has not taken a reply from another address than the public one. -/
def NotDiverted (pub : UDPAddr) (a : Attempt) (c : UDPClient) : Prop :=
  ∀ src resp, (holePunch lib d a c).1 = .ok (src, resp) → src = pub

theorem perform_raddr {a : Attempt} (h : NotDiverted lib d pub a c) (hpub : c.raddr = some pub) :
    (performDirectHandshake lib d a c).2.raddr = some pub := by
  have hkeep := (holePunch_extends lib d a c).1
  rcases ends (holePunch lib d a) c with ⟨⟨src, resp⟩, c', hp⟩ | ⟨e, c', hp⟩
  · rw [(perform_of_reply hp).1, h src resp (by rw [hp])]
  · rw [hp] at hkeep
    rw [perform_of_error hp]
    exact hkeep.trans hpub

theorem Calls.raddr (h : Calls lib d att (NotDiverted lib d pub) c₀ k c)
    (hpub : c₀.raddr = some pub) : c.raddr = some pub := by
  induction h with
  | first => exact hpub
  | again _ _ hok _ ih => exact perform_raddr hok ih

/-- **Every attempt punches both addresses**, as long as no attempt before it has taken a reply
from another address than the public one, the public address is an IPv4 address and the write of
the first request does not fail. -/
theorem punches_both {enc : Bytes} (h : Calls lib d att (NotDiverted lib d pub) c₀ k c)
    (hpub : c₀.raddr = some pub) (henc : ipToBytes lib d.pubAddr = some enc)
    (hw : c.writes.headD none = none) : Punches lib d (att k) pub c := by
  obtain ⟨c', lan, hpunch, hraddr, hinbox, hsent, hlan⟩ :=
    holePunch_of_sent (a := att k) (h.raddr hpub) henc hw
  have hprefix : c'.sent <+: (performDirectHandshake lib d (att k) c).2.sent := by
    refine List.IsPrefix.trans ?_ perform_sent
    rw [hpunch]
    exact (awaitReply_extends _ c').2
  obtain ⟨rest, hrest⟩ := hprefix
  rw [hsent] at hrest
  refine ⟨⟨enc, lan ++ rest, henc, ?_⟩, fun addr haddr => ?_, ?_⟩
  · rw [← hrest]
    simp
  · obtain ⟨err, rfl⟩ := hlan addr haddr
    refine ⟨enc, err, rest, henc, ?_⟩
    rw [← hrest]
    simp
  · intro foreign src resp tail hin hforeign hsrc
    have hreply := hpunch.trans
      (awaitReply_of_accepts hraddr (hinbox.trans hin) hsrc hforeign)
    exact ⟨by rw [hreply], (perform_of_reply hreply).1⟩

/-! ### A camera on the same network -/

/-- Takes apart one address. -/
def cameraLib : NetLib where
  splitHostPort s :=
    if s = "203.0.113.5:37777" then some ("203.0.113.5", GoStrings.ascii "37777") else none
  parseIPv4 s := if s = "203.0.113.5" then some (203, 0, 113, 5) else none

def camera : Device where
  cid := [1, 2, 3, 4, 5, 6, 7, 8]
  pubAddr := "203.0.113.5:37777"
  lAddr := "192.168.1.100:37777"
  sign := [0x2a]

def cameraPub : UDPAddr := ⟨0xffffcb007105, 37777⟩
def cameraLan : UDPAddr := ⟨0xffffc0a80164, 37777⟩

def cameraAttempt (k : ℕ) : Attempt where
  cookie := List.replicate 4 (UInt8.ofNat k)
  transID := List.replicate 12 0
  resolved := some cameraLan

/-- A client connected to the public address, with the datagrams that will arrive. -/
def cameraClient (inbox : List Event) : UDPClient where
  raddr := some cameraPub
  inbox := inbox
  writes := []
  sent := []

/-- Both attempts run into a timeout; the second one has sent both requests again. -/
theorem punches_both_timeout :
    ∃ c, Calls cameraLib camera cameraAttempt (NotDiverted cameraLib camera cameraPub)
        (cameraClient []) 2 c ∧
      ∃ enc err rest, (performDirectHandshake cameraLib camera (cameraAttempt 2) c).2.sent =
        c.sent ++ ⟨cameraPub, stunRequest camera (cameraAttempt 2) enc, none⟩ ::
          ⟨cameraLan, stunRequest camera (cameraAttempt 2) enc, err⟩ :: rest := by
  have hcalls : Calls cameraLib camera cameraAttempt (NotDiverted cameraLib camera cameraPub)
      (cameraClient []) 2 _ :=
    .again (e := .noDeviceResponse) .first (by decide) (fun src resp h => nomatch h) rfl
  have henc : ipToBytes cameraLib camera.pubAddr =
      some [0x6c, 0x6e, 0x34, 0xff, 0x8e, 0xfa] := by decide
  have hboth := punches_both hcalls rfl henc (by decide)
  obtain ⟨enc, err, rest, _, hsent⟩ := hboth.toLocal cameraLan (by decide)
  exact ⟨_, hcalls, enc, err, rest, hsent⟩

/-- The first attempt gets a short reply from the LAN address.  The second one sends both its
requests there and does not take the reply from the public address. -/
theorem rebound_attempt :
    ∃ c, Calls cameraLib camera cameraAttempt (fun _ _ => True)
        (cameraClient [.ok (cameraLan, [1, 2, 3]), .ok (cameraPub, List.replicate 20 0)]) 2 c ∧
      c.inbox = [.ok (cameraPub, List.replicate 20 0)] ∧ c.sent.length = 2 ∧
      (performDirectHandshake cameraLib camera (cameraAttempt 2) c).1 = .error .noDeviceResponse ∧
      ((performDirectHandshake cameraLib camera (cameraAttempt 2) c).2.sent.drop 2).map Sent.dst =
        [cameraLan, cameraLan] :=
  ⟨_, .again (e := .invalidResponse) .first (by decide) trivial rfl, rfl, rfl, rfl, rfl⟩

end loop

end DahuaP2p.Dh
