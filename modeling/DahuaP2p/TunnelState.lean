import DahuaP2p.Session
import DahuaP2p.Threads
import Mathlib.Data.List.AList

/-! # The state of a tunnel (`tunnel/tunnel.go`)

A tunnel is a shared memory (`Shared`) on which goroutines run; the control state of a
goroutine is a `Pc`.  The atomic actions are in `TunnelStep.lean`.

* **Locks.** `t.mu`, `ackMu`, `writeDeadlineMu` and `dialMu` are explicit flags, because a
  goroutine may hold them while it waits for something else.  The other mutexes (`realmsMu`,
  `connChMu`, `Conn.mu`, the session's and the health counters') guard sections that never
  wait, so each such section is one atomic action; so is a read section of `t.mu`, which is
  enabled when no writer holds the lock.
* **The send permit** is the channel `sendPermit`: `once` records that `sendOnce` has made the
  channel, `token` whether the channel holds its token.
* **Channels.** `done` and a `closeCh` are flags (closed or not); `dataCh` is the list of the
  queued payloads; the `connCh` of a BIND attempt is the flag of its one-place buffer; the
  `…DeadlineChanged` channels are identities with a closed flag, since they are replaced at
  every notification.
* **Time** is a natural number of nanoseconds, `0` the zero time.  Deadlines are compared with
  the clock `now`; tickers and timeouts of a fixed duration may fire at any moment.
* **Calls.** `sendPacketFor`, `signalClosed` and `Tunnel.Close` are called from several places.
  The control state of a goroutine inside them carries the call site (`SendCall`,
  `SignalCall`, `CloseCall`), which determines the arguments and where the call returns to.
* **History.** `History` records what the tunnel has done so far (packets built, handed to the
  socket and transmitted, payloads dispatched, results of reads, …).  No action reads it, except
  that the methods of a `Conn` are only called on one that `Dial` has returned. -/

namespace DahuaP2p.Tunnel

open BigEndian Ptcp Threads

/-- Nanoseconds; `0` is the zero time. -/
abbrev Time := ℕ
/-- Identity of a `Conn`. -/
abbrev ConnId := ℕ
/-- Identity of a notification channel. -/
abbrev ChanId := ℕ

/-- The deadline is set and has passed. -/
def Expired (deadline now : Time) : Prop := deadline ≠ 0 ∧ deadline ≤ now

instance (deadline now : Time) : Decidable (Expired deadline now) := by
  unfold Expired; infer_instance

/-! ### Constants -/

def maxConsecutiveReadErrors : ℕ := 10
def maxConsecutiveSendErrors : ℕ := 5
def maxMissedHeartbeats : ℕ := 24
/-- BIND attempts of one `Dial`. -/
def maxRetries : ℕ := 3
/-- DISC packets of one `Conn.Close`. -/
def discRetries : ℕ := 3
/-- Capacity of a `dataCh`. -/
def dataChCap : ℕ := 4096
/-- Payload bytes of one packet. -/
def maxPayloadSize : ℕ := 1280
/-- 20 seconds. -/
def outboundStallTimeout : Time := 20000000000

/-! ### Errors -/

/-- Errors of `sendPacketFor`; `io` stands for whatever the UDP socket reports. -/
inductive SendError where
  | tunnelClosed
  | deadlineExceeded
  | io
deriving DecidableEq, Repr

/-- Errors of `Dial`. -/
inductive DialError where
  | tunnelClosed
  | tunnelRetired
  | dialTimeout
  | send (e : SendError)
deriving DecidableEq, Repr

/-- Errors of `Conn.Read`. -/
inductive ReadError where
  | eof
  | deadlineExceeded
deriving DecidableEq, Repr

/-! ### Shared memory -/

/-- A connection within the tunnel, with the one-place `connCh` of the BIND attempt that made
it. -/
structure Conn where
  realmID : UInt32
  remotePort : UInt32
  dataCh : List Bytes := []
  closeCh : Bool := false
  closed : Bool := false
  closeOnce : Bool := false
  readBuf : Bytes := []
  readDeadline : Time := 0
  writeDeadline : Time := 0
  readDeadlineChanged : ChanId
  writeDeadlineChanged : ChanId
  connCh : Bool := false

/-- The mutexes that may be held across a wait. -/
structure Locks where
  mu : Bool := false
  ackMu : Bool := false
  writeDeadlineMu : Bool := false
  dialMu : Bool := false

/-- The life-cycle flags of the tunnel. -/
structure Life where
  closed : Bool := false
  retired : Bool := false
  done : Bool := false
  socketClosed : Bool := false
  onClose : Bool := false
  /-- How often the `onClose` callback ran. -/
  callbacks : ℕ := 0
  /-- A channel was closed twice. -/
  panicked : Bool := false

/-- The channel `sendPermit`. -/
structure Permit where
  once : Bool := false
  token : Bool := false

/-- The write side of the UDP socket. -/
structure Sock where
  writeDeadline : Time := 0
  activeWriter : Option ConnId := none

/-- A Go map from realm IDs to `Conn`s (for `t.connCh`: to the channel of that attempt). -/
abbrev RealmMap := AList fun _ : UInt32 => ConnId

/-- The `Conn`s, the maps that name them, and the notification channels. -/
structure Table where
  conns : ConnId → Conn
  connCount : ℕ := 0
  /-- `none` once `Close` has swapped the map for `nil`. -/
  realms : Option RealmMap := some ∅
  connCh : RealmMap := ∅
  chanClosed : ChanId → Bool := fun _ => false
  chanCount : ℕ := 0

/-- ACK coalescing. -/
structure Acks where
  pending : Bool := false
  /-- The last timer made. -/
  timer : Option ℕ := none
  /-- The timers that have neither fired nor been stopped. -/
  armed : List ℕ := []
  timers : ℕ := 0
  consecutiveSendErrs : ℕ := 0

/-- Health tracking. -/
structure Health where
  bindFailures : ℕ := 0
  missedHeartbeats : ℕ := 0
  consecutiveReadErrs : ℕ := 0
  lastAckTime : Time := 0
  lastDrain : UInt32 := 0
  lastDrainTime : Time := 0

/-- A datagram handed to the UDP socket: the packet, the `Conn` that wrote it (payloads), the
`Conn` whose teardown it announces (DISCs). -/
structure Handed where
  packet : Packet
  writer : Option ConnId
  discFor : Option ConnId

/-- What has happened so far. -/
structure History where
  /-- The session that the handshake left. -/
  initial : Session
  /-- Packets in the order `Session.send` built them. -/
  built : List Packet := []
  /-- Datagrams in the order they were handed to the UDP socket. -/
  handed : List Handed := []
  /-- Packets whose UDP write succeeded. -/
  transmitted : List Packet := []
  /-- UDP writes that failed. -/
  failed : ℕ := 0
  /-- Payload packets the reader dispatched: realm and data. -/
  inbox : List (UInt32 × Bytes) := []
  /-- Length of `inbox` when the `Conn` was installed. -/
  installedAt : ConnId → ℕ := fun _ => 0
  /-- Payloads put into the `dataCh` of a `Conn`. -/
  enqueued : ConnId → List Bytes := fun _ => []
  /-- Results of the `Read` calls of a `Conn`. -/
  reads : ConnId → List (Except ReadError Bytes) := fun _ => []
  /-- The payloads enqueued when the reader tore the realm down. -/
  torn : ConnId → Option (List Bytes) := fun _ => none
  /-- `Dial` has returned the `Conn`. -/
  returned : ConnId → Bool := fun _ => false
  /-- `Conn.Close` was called. -/
  closeCalled : ConnId → Bool := fun _ => false
  /-- The BIND attempt of the `Conn` timed out. -/
  timedOut : ConnId → Bool := fun _ => false
  /-- The attempt of the last BIND transmitted for a realm. -/
  bound : UInt32 → Option ConnId := fun _ => none
  /-- A CONN for the realm was processed since that BIND. -/
  granted : UInt32 → Bool := fun _ => false
  /-- A DISC for the realm was transmitted or received since that BIND. -/
  disc : UInt32 → Bool := fun _ => false

/-- The shared memory of a tunnel. -/
structure Shared where
  now : Time
  session : Session
  table : Table
  locks : Locks := {}
  life : Life := {}
  permit : Permit := {}
  sock : Sock := {}
  acks : Acks := {}
  health : Health := {}
  hist : History

/-! ### Control states -/

/-- Who called `Tunnel.Close`. -/
inductive CloseCall where
  | user
  | reader
  | heartbeat
  | flush
deriving DecidableEq, Repr

/-- Where `sendPacketFor` was called. -/
inductive SendCall where
  /-- `Tunnel.Close`, for realm `id` of `c`; `rest` are the realms still to do. -/
  | closeDisc (id : UInt32) (c : ConnId) (rest : List (UInt32 × ConnId)) (k : CloseCall)
  | readerSync
  | readerOverflow (realm : UInt32) (c : ConnId)
  | flush
  | heartbeat
  | dial (port : UInt32) (attempt : ℕ) (realmID : UInt32) (c : ConnId)
  /-- The `i`-th DISC of `Conn.Close`. -/
  | connClose (realmID : UInt32) (c : ConnId) (i : ℕ)
  /-- One chunk of `Conn.Write`, after `n` bytes and before `rest`. -/
  | write (realmID : UInt32) (c : ConnId) (n : ℕ) (chunk rest : Bytes)
deriving DecidableEq, Repr

namespace SendCall

/-- The body argument. -/
def body : SendCall → Body
  | closeDisc id _ _ _ => newStatusBody id statusDisconnect
  | readerSync => newSyncBody
  | readerOverflow realm _ => newStatusBody realm statusDisconnect
  | flush => newEmptyBody
  | heartbeat => newHeartbeatBody
  | dial port _ realmID _ => newBindBody realmID port
  | connClose realmID _ _ => newStatusBody realmID statusDisconnect
  | write realmID _ _ chunk _ => newPayloadBody realmID chunk

/-- The writer argument; `none` for `sendPacket`. -/
def writer : SendCall → Option ConnId
  | write _ c _ _ _ => some c
  | _ => none

/-- The realm and `Conn` whose teardown the packet announces. -/
def disc : SendCall → Option (UInt32 × ConnId)
  | closeDisc id c _ _ => some (id, c)
  | readerOverflow realm c => some (realm, c)
  | connClose realmID c _ => some (realmID, c)
  | _ => none

/-- The realm and `Conn` that the packet asks the device to bind. -/
def binds : SendCall → Option (UInt32 × ConnId)
  | dial _ _ realmID c => some (realmID, c)
  | _ => none

end SendCall

/-- Inside `sendPacketFor` and `acquireSendPermit`. -/
inductive SendPc where
  | enter
  /-- `<-t.sendPermit` without a writer. -/
  | await
  /-- Reading the writer's closed flag and deadline. -/
  | check
  /-- The select of a writer with the deadline and the notification channel it read. -/
  | select (deadline : Time) (changed : ChanId)
  /-- The writer has received the token. -/
  | won
  | giveBack
  | lockDeadline
  | readDeadline
  | setDeadline (closed : Bool) (deadline : Time)
  | build
  | write (p : Packet)
  /-- The UDP write waits for the socket. -/
  | blocked (p : Packet)
  | relockDeadline (e : Option SendError)
  | clearDeadline (e : Option SendError)
  | release (e : Option SendError)
deriving DecidableEq, Repr

/-- Where `signalClosed` was called. -/
inductive SignalCall where
  /-- `Tunnel.Close`: realms still to signal, and all realms. -/
  | close (todo ids : List (UInt32 × ConnId)) (k : CloseCall)
  | readerDisc
  | readerOverflow (realm : UInt32)
  | connClose (alreadyClosed : Bool)
deriving DecidableEq, Repr

/-- Inside `signalClosed` and `interruptWrite`. -/
inductive SignalPc where
  | setClosed
  | closeOnce
  | lockDeadline
  | interrupt
deriving DecidableEq, Repr

/-- Inside `Tunnel.Close`. -/
inductive ClosePc where
  | enter
  | stopAck
  | swap
  | signal (todo ids : List (UInt32 × ConnId))
  | disc (ids : List (UInt32 × ConnId))
  | finish
  | callback (installed : Bool)
deriving DecidableEq, Repr

/-- Inside `reader`. -/
inductive ReaderPc where
  | top
  | recv
  | readErr
  | parse (data : Bytes)
  | count (p : Packet)
  | conn (realm : UInt32)
  | disc (realm : UInt32)
  | lookup (realm : UInt32) (data : Bytes)
  | enqueue (realm : UInt32) (c : ConnId) (data : Bytes)
  | overflow (realm : UInt32) (c : ConnId)
  | ack
deriving DecidableEq, Repr

/-- Inside the heartbeat goroutine and `sendHeartbeat`. -/
inductive HeartbeatPc where
  | loop
  | begin
  | beat
  | stalled
deriving DecidableEq, Repr

/-- Inside `flushACK`. -/
inductive FlushPc where
  | lock
  | sent (e : Option SendError)
deriving DecidableEq, Repr

/-- Why a BIND attempt is cleaned up. -/
inductive Cleanup where
  | fail (e : DialError)
  | retry
deriving DecidableEq, Repr

/-- Inside `Dial`. -/
inductive DialPc where
  | enter (port : UInt32)
  | lock (port : UInt32)
  | recheck (port : UInt32)
  | draw (port : UInt32) (attempt : ℕ)
  | install (port : UInt32) (attempt : ℕ) (realmID : UInt32)
  | register (port : UInt32) (attempt : ℕ) (realmID : UInt32) (c : ConnId)
  | wait (port : UInt32) (attempt : ℕ) (realmID : UInt32) (c : ConnId)
  | dropRealm (port : UInt32) (attempt : ℕ) (realmID : UInt32) (c : ConnId) (why : Cleanup)
  | dropConnCh (port : UInt32) (attempt : ℕ) (realmID : UInt32) (c : ConnId) (why : Cleanup)
  | exhausted
  | report
  | ret (r : Except DialError ConnId)
deriving DecidableEq, Repr

/-- Inside `Conn.Close`. -/
inductive ConnClosePc where
  | enter (c : ConnId)
  | check (c : ConnId)
  | remove (c : ConnId)
deriving DecidableEq, Repr

/-- Inside `Conn.Write`. -/
inductive WritePc where
  | enter (c : ConnId) (p : Bytes)
  | check (c : ConnId) (p : Bytes)
  | loop (c : ConnId) (n : ℕ) (p : Bytes)
  | ret (c : ConnId) (n : ℕ) (e : Option SendError)
deriving DecidableEq, Repr

/-- Inside `Conn.Read` with a buffer of `n` bytes. -/
inductive ReadPc where
  | lock (c : ConnId) (n : ℕ)
  /-- The `Conn` was closed: queued bytes or EOF. -/
  | drain (c : ConnId) (n : ℕ)
  | select (c : ConnId) (n : ℕ) (deadline : Time) (changed : ChanId)
  | copy (c : ConnId) (n : ℕ) (data : Bytes)
deriving DecidableEq, Repr

/-- Inside the deadline setters and `updateWriteDeadline`. -/
inductive DeadlinePc where
  | lock (c : ConnId) (t : Time)
  | read (c : ConnId) (t : Time)
  | update (c : ConnId) (t : Time) (closed : Bool)
deriving DecidableEq, Repr

/-- The control state of a goroutine. -/
inductive Pc where
  /-- Not started, or returned. -/
  | idle
  | send (p : SendPc) (k : SendCall)
  | signal (p : SignalPc) (c : ConnId) (k : SignalCall)
  | close (p : ClosePc) (k : CloseCall)
  | reader (p : ReaderPc)
  | heartbeat (p : HeartbeatPc)
  | flush (p : FlushPc)
  | dial (p : DialPc)
  | connClose (p : ConnClosePc)
  | write (p : WritePc)
  | read (p : ReadPc)
  | deadline (p : DeadlinePc)
deriving DecidableEq, Repr

/-! ### Nondeterminism -/

/-- Calls that start on an idle goroutine. -/
inductive Call where
  | close
  | dial (port : UInt32)
  | retire
  | setOnClose
  | connClose (c : ConnId)
  | write (c : ConnId) (p : Bytes)
  | read (c : ConnId) (n : ℕ)
  | setDeadline (c : ConnId) (t : Time)
  | setReadDeadline (c : ConnId) (t : Time)
  | setWriteDeadline (c : ConnId) (t : Time)
  /-- The ACK timer fires. -/
  | flushACK (timer : ℕ)
deriving DecidableEq, Repr

/-- The branch of a `select` that is taken. -/
inductive Branch where
  | closeCh
  | done
  | deadlineChanged
  | timeout
  | permit
  | data
  | conn
  | tick
deriving DecidableEq, Repr

/-- The result of `ReadRaw`. -/
inductive RecvResult where
  | timeout
  | error
  | data (d : Bytes)
deriving DecidableEq, Repr

/-- The result of an operation on the UDP socket. -/
inductive UdpResult where
  | ok
  | fail
  | block
deriving DecidableEq, Repr

/-- What the program leaves open: which call starts, which branch is taken, which element of a
map comes next, which realm ID is drawn, what the network does. -/
inductive Choice where
  | go
  | call (c : Call)
  | select (b : Branch)
  | index (i : ℕ)
  | draw (id : UInt32)
  | recv (r : RecvResult)
  | udp (r : UdpResult)
  /-- The kernel completes a blocked write. -/
  | kernel (ok : Bool)
deriving DecidableEq, Repr

end DahuaP2p.Tunnel
