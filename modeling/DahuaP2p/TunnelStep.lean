import DahuaP2p.TunnelState

/-! # The atomic actions of a tunnel

One function per function of the source gives the next atomic action of a goroutine that is
inside it: `none` when the goroutine is blocked (or the choice does not fit), else the memory
and the control state after the action.  `next` puts them together and `system` is the
interleaving of all goroutines with the clock.

Initially the reader (goroutine 0) and the heartbeat (goroutine 1) that `New` starts are at
the top of their loops and all other goroutines are idle; an idle goroutine may start any call
of the API, or be the firing of an armed ACK timer.  The third goroutine of `New`,
`reportLoss`, only logs and is left out. -/

namespace DahuaP2p.Tunnel

open BigEndian Ptcp Threads

/-! ### Operations on the memory -/

/-- The `Conn` under a realm ID in `t.realms`; a `nil` map has none. -/
def Table.lookup (tb : Table) (realm : UInt32) : Option ConnId := tb.realms.bind (·.lookup realm)

/-- `delete(t.realms, realm)`. -/
def Table.delete (tb : Table) (realm : UInt32) : Table :=
  { tb with realms := tb.realms.map (·.erase realm) }

/-- Replace a `Conn`. -/
def Table.setConn (tb : Table) (c : ConnId) (cn : Conn) : Table :=
  { tb with conns := Function.update tb.conns c cn }

section tables
variable (tb : Table) (c d : ConnId) (cn : Conn)

@[simp] theorem Table.setConn_conns_self : (tb.setConn c cn).conns c = cn := by
  simp [Table.setConn]

theorem Table.setConn_conns_of_ne (h : d ≠ c) : (tb.setConn c cn).conns d = tb.conns d := by
  simp [Table.setConn, h]

/-- What the new `Conn` has in common with the old one is the same for every `Conn` after. -/
theorem Table.setConn_field {α : Type} (f : Conn → α) (h : f cn = f (tb.conns c)) :
    f ((tb.setConn c cn).conns d) = f (tb.conns d) := by
  by_cases hd : d = c
  · rw [hd, setConn_conns_self, h]
  · rw [setConn_conns_of_ne tb c d cn hd]

theorem Table.delete_lookup (realm id : UInt32) :
    (tb.delete realm).lookup id = if id = realm then none else tb.lookup id := by
  unfold Table.delete Table.lookup
  cases tb.realms with
  | none => simp
  | some m =>
      by_cases h : id = realm
      · subst h
        simp
      · simp [h, AList.lookup_erase_ne h]

end tables

/-- The `Conn` of a new BIND attempt, in `t.realms` under its realm ID. -/
def Table.install (tb : Table) (m : RealmMap) (realmID port : UInt32) : Table :=
  { tb with
    conns := Function.update tb.conns tb.connCount
      { realmID := realmID, remotePort := port, readDeadlineChanged := tb.chanCount,
        writeDeadlineChanged := tb.chanCount + 1 }
    connCount := tb.connCount + 1
    chanCount := tb.chanCount + 2
    realms := some (m.insert realmID tb.connCount) }

section tables
variable (tb : Table) (m : RealmMap) (id port : UInt32)

theorem Table.install_conns_of_lt {c : ConnId} (h : c < tb.connCount) :
    (tb.install m id port).conns c = tb.conns c :=
  Function.update_of_ne h.ne _ _

theorem Table.install_conns_self : (tb.install m id port).conns tb.connCount =
    { realmID := id, remotePort := port, readDeadlineChanged := tb.chanCount,
      writeDeadlineChanged := tb.chanCount + 1 } :=
  Function.update_self _ _ _

theorem Table.install_lookup (hm : tb.realms = some m) (r : UInt32) :
    (tb.install m id port).lookup r = if r = id then some tb.connCount else tb.lookup r := by
  unfold Table.install Table.lookup
  by_cases h : r = id
  · subst h
    simp
  · simp [h, hm, AList.lookup_insert_ne h]

end tables

/-- `notifyReadDeadlineLocked`. -/
def Table.notifyReadDeadline (tb : Table) (c : ConnId) : Table :=
  { tb with
    chanClosed := Function.update tb.chanClosed (tb.conns c).readDeadlineChanged true
    chanCount := tb.chanCount + 1
    conns := Function.update tb.conns c { tb.conns c with readDeadlineChanged := tb.chanCount } }

/-- `notifyWriteDeadlineLocked`. -/
def Table.notifyWriteDeadline (tb : Table) (c : ConnId) : Table :=
  { tb with
    chanClosed := Function.update tb.chanClosed (tb.conns c).writeDeadlineChanged true
    chanCount := tb.chanCount + 1
    conns := Function.update tb.conns c { tb.conns c with writeDeadlineChanged := tb.chanCount } }

/-- A `close` of a channel that is closed already panics. -/
def Life.closing (l : Life) (alreadyClosed : Bool) : Life :=
  { l with panicked := l.panicked || alreadyClosed }

/-- A packet is handed to the UDP socket. -/
def History.hand (h : History) (p : Packet) (k : SendCall) : History :=
  { h with handed := h.handed ++ [⟨p, k.writer, k.disc.map Prod.snd⟩] }

/-- The UDP write of a packet succeeded.  A BIND starts a new life of its realm. -/
def History.transmit (h : History) (p : Packet) (k : SendCall) : History :=
  { h with
    transmitted := h.transmitted ++ [p]
    bound := match k.binds with
      | some (realm, c) => Function.update h.bound realm (some c)
      | none => h.bound
    granted := match k.binds with
      | some (realm, _) => Function.update h.granted realm false
      | none => h.granted
    disc := match k.binds, k.disc with
      | some (realm, _), _ => Function.update h.disc realm false
      | none, some (realm, _) => Function.update h.disc realm true
      | none, none => h.disc }

/-- The result of a `Read`. -/
def History.logRead (h : History) (c : ConnId) (r : Except ReadError Bytes) : History :=
  { h with reads := Function.update h.reads c (h.reads c ++ [r]) }

/-! ### `sendPacketFor` and `acquireSendPermit` -/

/-- Where `sendPacketFor` returns to. -/
def SendCall.ret : SendCall → Option SendError → Pc
  | closeDisc _ _ rest k, _ => .close (.disc rest) k
  | readerSync, _ => .reader .top
  | readerOverflow _ _, _ => .reader .ack
  | flush, e => .flush (.sent e)
  | heartbeat, _ => .heartbeat .stalled
  | dial port a realmID c, none => .dial (.wait port a realmID c)
  | dial port a realmID c, some e => .dial (.dropRealm port a realmID c (.fail (.send e)))
  | connClose realmID c i, none =>
      if i + 1 < discRetries then .send .enter (.connClose realmID c (i + 1))
      else .connClose (.remove c)
  | connClose _ c _, some _ => .connClose (.remove c)
  | write _ c n chunk rest, none => .write (.loop c (n + chunk.length) rest)
  | write _ c n _ _, some e => .write (.ret c n (some e))

/-- After the UDP write: a writer clears its deadline first. -/
def SendCall.written (k : SendCall) (e : Option SendError) : Pc :=
  match k.writer with
  | some _ => .send (.relockDeadline e) k
  | none => .send (.release e) k

/-- The UDP socket accepts a write: it is open and its write deadline has not passed. -/
def Shared.Writable (s : Shared) : Prop :=
  s.life.socketClosed = false ∧ ¬ Expired s.sock.writeDeadline s.now

instance (s : Shared) : Decidable s.Writable := by unfold Shared.Writable; infer_instance

/-- The part of `acquireSendPermit` that only a writer runs: its check, its select, and the
look at `done` after it has won the token. -/
def stepAcquire (s : Shared) (c : ConnId) (p : SendPc) (k : SendCall) (ch : Choice) :
    Option (Shared × Pc) :=
  let cn := s.table.conns c
  match p, ch with
  | .check, .go =>
      if cn.closed then some (s, k.ret (some .tunnelClosed))
      else if Expired cn.writeDeadline s.now then some (s, k.ret (some .deadlineExceeded))
      else some (s, .send (.select cn.writeDeadline cn.writeDeadlineChanged) k)
  | .select _ _, .select .closeCh =>
      if cn.closeCh then some (s, k.ret (some .tunnelClosed)) else none
  | .select _ _, .select .done =>
      if s.life.done then some (s, k.ret (some .tunnelClosed)) else none
  | .select _ changed, .select .deadlineChanged =>
      if s.table.chanClosed changed then some (s, .send .check k) else none
  | .select deadline _, .select .timeout =>
      if Expired deadline s.now then some (s, k.ret (some .deadlineExceeded)) else none
  | .select _ _, .select .permit =>
      if s.permit.token then some ({ s with permit.token := false }, .send .won k) else none
  | .won, .go =>
      if s.life.done then some (s, .send .giveBack k) else some (s, .send .lockDeadline k)
  | .giveBack, .go =>
      if s.permit.token then none
      else some ({ s with permit.token := true }, k.ret (some .tunnelClosed))
  | _, _ => none

/-- The part of `sendPacketFor` in which a writer sets, and after the write clears, the write
deadline of the socket. -/
def stepWriter (s : Shared) (c : ConnId) (p : SendPc) (k : SendCall) (ch : Choice) :
    Option (Shared × Pc) :=
  match p, ch with
  | .lockDeadline, .go =>
      if s.locks.writeDeadlineMu then none
      else some ({ s with locks.writeDeadlineMu := true }, .send .readDeadline k)
  | .readDeadline, .go =>
      some (s, .send (.setDeadline (s.table.conns c).closed (s.table.conns c).writeDeadline) k)
  | .setDeadline closed deadline, .udp r =>
      if closed then
        some ({ s with locks.writeDeadlineMu := false }, .send (.release (some .tunnelClosed)) k)
      else if Expired deadline s.now then
        some ({ s with locks.writeDeadlineMu := false },
          .send (.release (some .deadlineExceeded)) k)
      else match r with
        | .ok =>
            some ({ s with
              locks.writeDeadlineMu := false
              sock := { writeDeadline := deadline, activeWriter := some c } }, .send .build k)
        | _ =>
            some ({ s with locks.writeDeadlineMu := false, sock.activeWriter := none },
              .send (.release (some .io)) k)
  | .relockDeadline e, .go =>
      if s.locks.writeDeadlineMu then none
      else some ({ s with locks.writeDeadlineMu := true }, .send (.clearDeadline e) k)
  | .clearDeadline e, .go =>
      some ({ s with
        locks.writeDeadlineMu := false
        sock := { writeDeadline := 0, activeWriter := none } }, .send (.release e) k)
  | _, _ => none

/-- `sendPacketFor`. -/
def stepSend (s : Shared) (p : SendPc) (k : SendCall) (ch : Choice) : Option (Shared × Pc) :=
  match p, ch with
  | .enter, .go =>
      let s' := if s.permit.once then s else { s with permit := ⟨true, true⟩ }
      match k.writer with
      | none => some (s', .send .await k)
      | some _ => some (s', .send .check k)
  | .await, .go =>
      if s.permit.token then some ({ s with permit.token := false }, .send .build k) else none
  | .build, .go =>
      let r := s.session.send k.body
      some ({ s with session := r.1, hist.built := s.hist.built ++ [r.2] }, .send (.write r.2) k)
  | .write q, .udp .ok =>
      if s.Writable then some ({ s with hist := (s.hist.hand q k).transmit q k }, k.written none)
      else none
  | .write q, .udp .fail =>
      some ({ s with hist := { s.hist.hand q k with failed := s.hist.failed + 1 } },
        k.written (some .io))
  | .write q, .udp .block =>
      if s.Writable ∧ k.writer.isSome then
        some ({ s with hist := s.hist.hand q k }, .send (.blocked q) k)
      else none
  | .blocked _, .udp .fail =>
      if s.Writable then none
      else some ({ s with hist.failed := s.hist.failed + 1 }, k.written (some .io))
  | .blocked q, .kernel true =>
      if s.life.socketClosed then none
      else some ({ s with hist := s.hist.transmit q k }, k.written none)
  | .blocked _, .kernel false =>
      some ({ s with hist.failed := s.hist.failed + 1 }, k.written (some .io))
  | .release e, .go =>
      if s.permit.token then none else some ({ s with permit.token := true }, k.ret e)
  | p, ch =>
      match k.writer with
      | none => none
      | some c => (stepAcquire s c p k ch).or (stepWriter s c p k ch)

/-! ### `signalClosed` and `interruptWrite` -/

/-- Where `signalClosed` returns to. -/
def SignalCall.ret (c : ConnId) : SignalCall → Pc
  | close todo ids k => .close (.signal todo ids) k
  | readerDisc => .reader .ack
  | readerOverflow realm => .send .enter (.readerOverflow realm c)
  | connClose true => .idle
  | connClose false => .connClose (.check c)

def stepSignal (s : Shared) (p : SignalPc) (c : ConnId) (k : SignalCall) (ch : Choice) :
    Option (Shared × Pc) :=
  let cn := s.table.conns c
  match p, ch with
  | .setClosed, .go =>
      some ({ s with table := s.table.setConn c { cn with closed := true } },
        .signal .closeOnce c k)
  | .closeOnce, .go =>
      if cn.closeOnce then some (s, .signal .lockDeadline c k)
      else
        some ({ s with
          table := s.table.setConn c { cn with closeOnce := true, closeCh := true }
          life := s.life.closing cn.closeCh }, .signal .lockDeadline c k)
  | .lockDeadline, .go =>
      if s.locks.writeDeadlineMu then none
      else some ({ s with locks.writeDeadlineMu := true }, .signal .interrupt c k)
  | .interrupt, .go =>
      some ({ s with
        locks.writeDeadlineMu := false
        sock := if s.sock.activeWriter = some c then { s.sock with writeDeadline := s.now }
          else s.sock }, k.ret c)
  | _, _ => none

/-! ### `Tunnel.Close` -/

/-- Where `Tunnel.Close` returns to. -/
def CloseCall.ret : CloseCall → Pc
  | user => .idle
  | reader => .idle
  | heartbeat => .heartbeat .loop
  | flush => .idle

/-- The entries of a realm map. -/
def realmEntries (m : RealmMap) : List (UInt32 × ConnId) := m.entries.map fun e => (e.1, e.2)

def stepClose (s : Shared) (p : ClosePc) (k : CloseCall) (ch : Choice) : Option (Shared × Pc) :=
  match p, ch with
  | .enter, .go =>
      if s.locks.mu then none
      else if s.life.closed then some (s, k.ret)
      else
        some ({ s with
          locks.mu := true
          life := { s.life.closing s.life.done with closed := true, done := true } },
          .close .stopAck k)
  | .stopAck, .go =>
      if s.locks.ackMu then none
      else
        let armed := match s.acks.timer with
          | some i => s.acks.armed.erase i
          | none => s.acks.armed
        some ({ s with acks.armed := armed }, .close .swap k)
  | .swap, .go =>
      let ids := (s.table.realms.map realmEntries).getD []
      some ({ s with table.realms := none }, .close (.signal ids ids) k)
  | .signal [] ids, .go => some (s, .close (.disc ids) k)
  | .signal (r :: todo) ids, .index i =>
      match (r :: todo)[i]? with
      | some (_, c) => some (s, .signal .setClosed c (.close ((r :: todo).eraseIdx i) ids k))
      | none => none
  | .disc [], .go => some (s, .close .finish k)
  | .disc (r :: rest), .index i =>
      match (r :: rest)[i]? with
      | some (id, c) => some (s, .send .enter (.closeDisc id c ((r :: rest).eraseIdx i) k))
      | none => none
  | .finish, .go =>
      some ({ s with locks.mu := false, life.socketClosed := true },
        .close (.callback s.life.onClose) k)
  | .callback installed, .go =>
      some ({ s with life.callbacks := s.life.callbacks + if installed then 1 else 0 }, k.ret)
  | _, _ => none

/-! ### `reader` and `scheduleACK` -/

/-- The dispatch of a received packet on its body type. -/
def dispatch (b : Body) : Pc :=
  match b.type with
  | .empty => .reader .top
  | .sync => .send .enter .readerSync
  | .status =>
      if b.status = statusConnect then .reader (.conn b.realm)
      else if b.status = statusDisconnect then .reader (.disc b.realm)
      else .reader .ack
  | .payload => .reader (.lookup b.realm b.data)
  | .heartbeat => .reader .ack
  | .command => .reader .top
  | .bind => .reader .top

/-- `scheduleACK`, with `ackMu` free. -/
def Acks.schedule (a : Acks) : Acks :=
  if a.pending then a
  else
    { a with
      pending := true
      timer := some a.timers
      armed := a.timers :: a.armed
      timers := a.timers + 1 }

def stepReader (s : Shared) (p : ReaderPc) (ch : Choice) : Option (Shared × Pc) :=
  match p, ch with
  | .top, .go => if s.life.done then some (s, .idle) else some (s, .reader .recv)
  | .recv, .recv .timeout => some (s, .reader .top)
  | .recv, .recv .error => some (s, .reader .readErr)
  | .recv, .recv (.data d) =>
      if s.life.socketClosed then none
      else some ({ s with health.consecutiveReadErrs := 0 }, .reader (.parse d))
  | .readErr, .go =>
      if s.life.done then some (s, .idle)
      else
        let n := s.health.consecutiveReadErrs + 1
        some ({ s with health.consecutiveReadErrs := n },
          if maxConsecutiveReadErrors ≤ n then .close .enter .reader else .reader .top)
  | .parse d, .go =>
      match parsePacket d with
      | .error _ => some (s, .reader .top)
      | .ok q =>
          some ({ s with health.missedHeartbeats := 0, health.lastAckTime := s.now },
            .reader (.count q))
  | .count q, .go => some ({ s with session := s.session.recvPacket q }, dispatch q.body)
  | .conn realm, .go =>
      match s.table.connCh.lookup realm with
      | none =>
          some ({ s with hist.granted := Function.update s.hist.granted realm true },
            .reader .ack)
      | some c =>
          if (s.table.conns c).connCh then none
          else
            some ({ s with
              table := { s.table.setConn c { s.table.conns c with connCh := true } with
                connCh := s.table.connCh.erase realm }
              hist.granted := Function.update s.hist.granted realm true }, .reader .ack)
  | .disc realm, .go =>
      let hist := { s.hist with disc := Function.update s.hist.disc realm true }
      match s.table.lookup realm with
      | none => some ({ s with hist := hist }, .reader .ack)
      | some c =>
          some ({ s with
            table := s.table.delete realm
            hist := { hist with torn := Function.update hist.torn c (some (hist.enqueued c)) } },
            .signal .setClosed c .readerDisc)
  | .lookup realm data, .go =>
      let hist := { s.hist with inbox := s.hist.inbox ++ [(realm, data)] }
      match s.table.lookup realm with
      | none => some ({ s with hist := hist }, .reader .ack)
      | some c => some ({ s with hist := hist }, .reader (.enqueue realm c data))
  | .enqueue realm c data, .go =>
      let cn := s.table.conns c
      if cn.dataCh.length < dataChCap then
        some ({ s with
          table := s.table.setConn c { cn with dataCh := cn.dataCh ++ [data] }
          hist.enqueued := Function.update s.hist.enqueued c (s.hist.enqueued c ++ [data]) },
          .reader .ack)
      else some (s, .reader (.overflow realm c))
  | .overflow realm c, .go =>
      some ({ s with
        table := s.table.delete realm
        hist.torn := Function.update s.hist.torn c (some (s.hist.enqueued c)) },
        .signal .setClosed c (.readerOverflow realm))
  | .ack, .go =>
      if s.locks.ackMu then none else some ({ s with acks := s.acks.schedule }, .reader .top)
  | _, _ => none

/-! ### Heartbeat and `flushACK` -/

/-- `outboundStalled`. -/
def Health.outboundStalled (h : Health) (st : Stats) (now : Time) : Health × Bool :=
  if st.outBytes ≤ 0 then ({ h with lastDrain := st.peerRecv, lastDrainTime := now }, false)
  else if st.peerRecv ≠ h.lastDrain then
    ({ h with lastDrain := st.peerRecv, lastDrainTime := now }, false)
  else if h.lastDrainTime = 0 then ({ h with lastDrainTime := now }, false)
  else (h, decide (outboundStallTimeout < now - h.lastDrainTime))

def stepHeartbeat (s : Shared) (p : HeartbeatPc) (ch : Choice) : Option (Shared × Pc) :=
  match p, ch with
  | .loop, .select .tick => some (s, .heartbeat .begin)
  | .loop, .select .done => if s.life.done then some (s, .idle) else none
  | .begin, .go =>
      if s.locks.mu then none
      else if s.life.closed then some (s, .heartbeat .loop) else some (s, .heartbeat .beat)
  | .beat, .go =>
      let missed := s.health.missedHeartbeats + 1
      some ({ s with health.missedHeartbeats := missed },
        if maxMissedHeartbeats < missed then .close .enter .heartbeat
        else .send .enter .heartbeat)
  | .stalled, .go =>
      let r := s.health.outboundStalled s.session.stats s.now
      some ({ s with health := r.1 },
        if r.2 then .close .enter .heartbeat else .heartbeat .loop)
  | _, _ => none

/-- `flushACK` counts the outcome of its send and releases `ackMu`. -/
def Shared.flushed (s : Shared) (e : Option SendError) : Shared :=
  { s with
    locks.ackMu := false
    acks.consecutiveSendErrs := if e = none then 0 else s.acks.consecutiveSendErrs + 1
    acks.pending := false }

def stepFlush (s : Shared) (p : FlushPc) (ch : Choice) : Option (Shared × Pc) :=
  match p, ch with
  | .lock, .go =>
      if s.locks.ackMu then none
      else some ({ s with locks.ackMu := true }, .send .enter .flush)
  | .sent e, .go =>
      let s' := s.flushed e
      some (s', if e ≠ none ∧ maxConsecutiveSendErrors ≤ s'.acks.consecutiveSendErrs then
          .close .enter .flush
        else .idle)
  | _, _ => none

/-! ### `Dial` -/

def stepDial (s : Shared) (p : DialPc) (ch : Choice) : Option (Shared × Pc) :=
  match p, ch with
  | .enter port, .go =>
      if s.locks.mu then none
      else if s.life.closed ∨ s.life.retired then some (s, .idle)
      else some (s, .dial (.lock port))
  | .lock port, .go =>
      if s.locks.dialMu then none
      else some ({ s with locks.dialMu := true }, .dial (.recheck port))
  | .recheck port, .go =>
      if s.locks.mu then none
      else if s.life.closed then some (s, .dial (.ret (.error .tunnelClosed)))
      else if s.life.retired then some (s, .dial (.ret (.error .tunnelRetired)))
      else some (s, .dial (.draw port 0))
  | .draw port a, .draw id =>
      if (s.table.lookup id).isSome then none else some (s, .dial (.install port a id))
  | .install port a id, .go =>
      match s.table.realms with
      | none => some (s, .dial (.ret (.error .tunnelClosed)))
      | some m =>
          let c := s.table.connCount
          some ({ s with
            table := s.table.install m id port
            hist.installedAt := Function.update s.hist.installedAt c s.hist.inbox.length },
            .dial (.register port a id c))
  | .register port a id c, .go =>
      some ({ s with table.connCh := s.table.connCh.insert id c },
        .send .enter (.dial port a id c))
  | .wait _ _ _ c, .select .conn =>
      let cn := s.table.conns c
      if cn.connCh then
        some ({ s with
          table := s.table.setConn c { cn with connCh := false }
          health.bindFailures := 0
          hist.returned := Function.update s.hist.returned c true }, .dial (.ret (.ok c)))
      else none
  | .wait port a id c, .select .done =>
      if s.life.done then some (s, .dial (.dropRealm port a id c (.fail .tunnelClosed))) else none
  | .wait port a id c, .select .timeout =>
      some ({ s with hist.timedOut := Function.update s.hist.timedOut c true },
        .dial (.dropRealm port a id c .retry))
  | .dropRealm port a id c why, .go =>
      some ({ s with table := s.table.delete id }, .dial (.dropConnCh port a id c why))
  | .dropConnCh port a id _ why, .go =>
      some ({ s with table.connCh := s.table.connCh.erase id },
        match why with
        | .fail e => .dial (.ret (.error e))
        | .retry => if a + 1 < maxRetries then .dial (.draw port (a + 1)) else .dial .exhausted)
  | .exhausted, .go =>
      some ({ s with health.bindFailures := s.health.bindFailures + 1 }, .dial .report)
  | .report, .go =>
      if s.locks.mu then none else some (s, .dial (.ret (.error .dialTimeout)))
  | .ret _, .go => some ({ s with locks.dialMu := false }, .idle)
  | _, _ => none

/-! ### Methods of `Conn` -/

def stepConnClose (s : Shared) (p : ConnClosePc) (ch : Choice) : Option (Shared × Pc) :=
  match p, ch with
  | .enter c, .go =>
      let cn := s.table.conns c
      some ({ s with
        table := s.table.setConn c { cn with closed := true }
        hist.closeCalled := Function.update s.hist.closeCalled c true },
        .signal .setClosed c (.connClose cn.closed))
  | .check c, .go =>
      if s.locks.mu then none
      else if s.life.closed then some (s, .connClose (.remove c))
      else some (s, .send .enter (.connClose (s.table.conns c).realmID c 0))
  | .remove c, .go =>
      some ({ s with table := s.table.delete (s.table.conns c).realmID }, .idle)
  | _, _ => none

def stepWrite (s : Shared) (p : WritePc) (ch : Choice) : Option (Shared × Pc) :=
  match p, ch with
  | .enter c data, .go =>
      if (s.table.conns c).closed then some (s, .write (.ret c 0 (some .tunnelClosed)))
      else some (s, .write (.check c data))
  | .check c data, .go =>
      if s.locks.mu then none
      else if s.life.closed then some (s, .write (.ret c 0 (some .tunnelClosed)))
      else some (s, .write (.loop c 0 data))
  | .loop c n [], .go => some (s, .write (.ret c n none))
  | .loop c n (b :: data), .go =>
      some (s, .send .enter (.write (s.table.conns c).realmID c n ((b :: data).take maxPayloadSize)
        ((b :: data).drop maxPayloadSize)))
  | .ret _ _ _, .go => some (s, .idle)
  | _, _ => none

def stepRead (s : Shared) (p : ReadPc) (ch : Choice) : Option (Shared × Pc) :=
  match p, ch with
  | .lock c n, .go =>
      let cn := s.table.conns c
      if cn.readBuf ≠ [] then
        some ({ s with
          table := s.table.setConn c { cn with readBuf := cn.readBuf.drop n }
          hist := s.hist.logRead c (.ok (cn.readBuf.take n)) }, .idle)
      else if cn.closed then some (s, .read (.drain c n))
      else if Expired cn.readDeadline s.now then
        some ({ s with hist := s.hist.logRead c (.error .deadlineExceeded) }, .idle)
      else some (s, .read (.select c n cn.readDeadline cn.readDeadlineChanged))
  | .drain c n, .go =>
      let cn := s.table.conns c
      match cn.dataCh with
      | data :: rest =>
          some ({ s with table := s.table.setConn c { cn with dataCh := rest } },
            .read (.copy c n data))
      | [] => some ({ s with hist := s.hist.logRead c (.error .eof) }, .idle)
  | .select c n _ _, .select .data =>
      let cn := s.table.conns c
      match cn.dataCh with
      | data :: rest =>
          some ({ s with table := s.table.setConn c { cn with dataCh := rest } },
            .read (.copy c n data))
      | [] => none
  | .select c n _ _, .select .closeCh =>
      if (s.table.conns c).closeCh then some (s, .read (.lock c n)) else none
  | .select c n _ changed, .select .deadlineChanged =>
      if s.table.chanClosed changed then some (s, .read (.lock c n)) else none
  | .select c _ deadline _, .select .timeout =>
      if Expired deadline s.now then
        some ({ s with hist := s.hist.logRead c (.error .deadlineExceeded) }, .idle)
      else none
  | .copy c n data, .go =>
      let cn := s.table.conns c
      some ({ s with
        table := s.table.setConn c { cn with readBuf := cn.readBuf ++ data.drop n }
        hist := s.hist.logRead c (.ok (data.take n)) }, .idle)
  | _, _ => none

/-- `updateWriteDeadline`. -/
def stepDeadline (s : Shared) (p : DeadlinePc) (ch : Choice) : Option (Shared × Pc) :=
  match p, ch with
  | .lock c t, .go =>
      if s.locks.writeDeadlineMu then none
      else some ({ s with locks.writeDeadlineMu := true }, .deadline (.read c t))
  | .read c t, .go => some (s, .deadline (.update c t (s.table.conns c).closed))
  | .update c t closed, .udp r =>
      let sock := if closed = false ∧ s.sock.activeWriter = some c ∧ r = .ok then
          { s.sock with writeDeadline := t }
        else s.sock
      some ({ s with locks.writeDeadlineMu := false, sock := sock }, .idle)
  | _, _ => none

/-! ### Calls and the whole tunnel -/

/-- `Conn.SetReadDeadline` up to its unlock; `SetDeadline` does this first. -/
def Shared.setReadDeadline (s : Shared) (c : ConnId) (t : Time) : Shared :=
  let tb := s.table.setConn c { s.table.conns c with readDeadline := t }
  { s with
    table := tb.notifyReadDeadline c
    life := s.life.closing (tb.chanClosed (tb.conns c).readDeadlineChanged) }

/-- `Conn.SetWriteDeadline` up to its unlock. -/
def Shared.setWriteDeadline (s : Shared) (c : ConnId) (t : Time) : Shared :=
  let tb := s.table.setConn c { s.table.conns c with writeDeadline := t }
  { s with
    table := tb.notifyWriteDeadline c
    life := s.life.closing (tb.chanClosed (tb.conns c).writeDeadlineChanged) }

section deadlines
variable (s : Shared) (c d : ConnId) (t : Time)

theorem Shared.setReadDeadline_conns_of_ne (h : d ≠ c) :
    (s.setReadDeadline c t).table.conns d = s.table.conns d := by
  simp [Shared.setReadDeadline, Table.notifyReadDeadline, Table.setConn, h]

theorem Shared.setWriteDeadline_conns_of_ne (h : d ≠ c) :
    (s.setWriteDeadline c t).table.conns d = s.table.conns d := by
  simp [Shared.setWriteDeadline, Table.notifyWriteDeadline, Table.setConn, h]

/-- The deadline setters change deadlines and their channels only. -/
theorem Shared.setReadDeadline_field {α : Type} (f : Conn → α)
    (h : ∀ cn a b, f { cn with readDeadline := a, readDeadlineChanged := b } = f cn) :
    f ((s.setReadDeadline c t).table.conns d) = f (s.table.conns d) := by
  by_cases hd : d = c
  · subst hd
    simp [Shared.setReadDeadline, Table.notifyReadDeadline, h]
  · rw [s.setReadDeadline_conns_of_ne c d t hd]

theorem Shared.setWriteDeadline_field {α : Type} (f : Conn → α)
    (h : ∀ cn a b, f { cn with writeDeadline := a, writeDeadlineChanged := b } = f cn) :
    f ((s.setWriteDeadline c t).table.conns d) = f (s.table.conns d) := by
  by_cases hd : d = c
  · subst hd
    simp [Shared.setWriteDeadline, Table.notifyWriteDeadline, h]
  · rw [s.setWriteDeadline_conns_of_ne c d t hd]

end deadlines

/-- A call starts on an idle goroutine.  Methods of a `Conn` need one that `Dial` returned. -/
def stepCall (s : Shared) : Call → Option (Shared × Pc)
  | .close => some (s, .close .enter .user)
  | .dial port => some (s, .dial (.enter port))
  | .retire => if s.locks.mu then none else some ({ s with life.retired := true }, .idle)
  | .setOnClose =>
      if s.locks.mu then none
      else if s.life.closed then
        some ({ s with life.callbacks := s.life.callbacks + 1 }, .idle)
      else some ({ s with life.onClose := true }, .idle)
  | .connClose c => if s.hist.returned c then some (s, .connClose (.enter c)) else none
  | .write c p => if s.hist.returned c then some (s, .write (.enter c p)) else none
  | .read c n => if s.hist.returned c then some (s, .read (.lock c n)) else none
  | .setDeadline c t =>
      if s.hist.returned c then
        some ((s.setReadDeadline c t).setWriteDeadline c t, .deadline (.lock c t))
      else none
  | .setReadDeadline c t =>
      if s.hist.returned c then some (s.setReadDeadline c t, .idle) else none
  | .setWriteDeadline c t =>
      if s.hist.returned c then some (s.setWriteDeadline c t, .deadline (.lock c t)) else none
  | .flushACK i =>
      if i ∈ s.acks.armed then
        some ({ s with acks.armed := s.acks.armed.erase i }, .flush .lock)
      else none

/-- The next atomic action of a goroutine. -/
def next (s : Shared) (pc : Pc) (ch : Choice) : Option (Shared × Pc) :=
  match pc with
  | .idle => match ch with
    | .call c => stepCall s c
    | _ => none
  | .send p k => stepSend s p k ch
  | .signal p c k => stepSignal s p c k ch
  | .close p k => stepClose s p k ch
  | .reader p => stepReader s p ch
  | .heartbeat p => stepHeartbeat s p ch
  | .flush p => stepFlush s p ch
  | .dial p => stepDial s p ch
  | .connClose p => stepConnClose s p ch
  | .write p => stepWrite s p ch
  | .read p => stepRead s p ch
  | .deadline p => stepDeadline s p ch

/-- Time passes. -/
def passTime (s : Shared) (d : Time) : Option Shared := some { s with now := s.now + d }

/-- The goroutines that `New` starts. -/
def startThreads : ℕ → Pc
  | 0 => .reader .top
  | 1 => .heartbeat .loop
  | _ => .idle

/-- What stands for a `Conn` that is not made yet. -/
def blankConn : Conn :=
  { realmID := 0, remotePort := 0, readDeadlineChanged := 0, writeDeadlineChanged := 0 }

/-- A tunnel as `New` returns it, with the session of the handshake. -/
def start (now : Time) (session : Session) : World Shared Pc where
  shared :=
    { now := now
      session := session
      table := { conns := fun _ => blankConn }
      hist := { initial := session } }
  thr := startThreads

/-- The initial worlds: any session, at any time after the zero time. -/
def Init (w : World Shared Pc) : Prop := ∃ now session, 0 < now ∧ w = start now session

/-- The tunnel: all goroutines interleaved, and the clock. -/
def system : System (World Shared Pc) (Label Choice Time) := interleave Init next passTime

/-! ### Scripts -/

/-- Actions of goroutine `t`. -/
def acts (t : ℕ) (choices : List Choice) : List (Label Choice Time) := choices.map (.thread t)

/-- `n` actions without a choice. -/
def gos (n : ℕ) : List Choice := List.replicate n .go

/-- One round of the heartbeat goroutine; its UDP write ends with `r`. -/
def heartbeatRound (r : UdpResult) : List (Label Choice Time) :=
  acts 1 (.select .tick :: gos 5 ++ [.udp r] ++ gos 2)

/-- Goroutine `t` calls `Dial`, draws `realm`, transmits the BIND and waits. -/
def dialScript (t : ℕ) (port realm : UInt32) : List (Label Choice Time) :=
  acts t (.call (.dial port) :: gos 3 ++ [.draw realm] ++ gos 5 ++ [.udp .ok, .go])

/-- A datagram of the device. -/
def datagram (body : Body) : Bytes := (Packet.mk ⟨0, 0, 0xFFFF, 0, 0⟩ body).serialize

/-- The reader receives a datagram and takes `n` actions on it. -/
def receiveScript (body : Body) (n : ℕ) : List (Label Choice Time) :=
  acts 0 ([.go, .recv (.data (datagram body))] ++ gos n)

/-- A `Dial` of goroutine `t` that is granted. -/
def grantScript (t : ℕ) (realm : UInt32) : List (Label Choice Time) :=
  dialScript t 554 realm ++ receiveScript (newStatusBody realm statusConnect) 4 ++
    acts t [.select .conn, .go]

/-- A `Dial` that is granted, and a `Write` of one byte that blocks in the socket. -/
def blockedScript : List (Label Choice Time) :=
  grantScript 2 7 ++
    acts 3 (.call (.write 0 [1]) :: gos 5 ++ [.select .permit] ++ gos 3 ++
      [.udp .ok, .go, .udp .block])

/-- The worlds of a run from the start are reachable. -/
theorem reach_of_exec {ok : World Shared Pc → Label Choice Time → Prop}
    [∀ w l, Decidable (ok w l)] {now : Time} {session : Session} {ls : List (Label Choice Time)}
    {w : World Shared Pc} (hnow : 0 < now) (h : system.exec ok (start now session) ls = some w) :
    system.Reach ok w :=
  System.Reach.exec (.init ⟨now, session, hnow, rfl⟩) h

end DahuaP2p.Tunnel
