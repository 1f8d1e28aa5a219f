import DahuaP2p.TunnelStep

/-! # The actions of a tunnel as relations

`Local s pc pc'` lists the actions that leave the memory as it is, with what they read;
`Effect s pc s' pc'` lists those that change it.  `next_cases` proves once and for all that
every step of `next` is one of them, so that the invariants of the following modules are case
analyses on named actions and never unfold the step functions. -/

namespace DahuaP2p.Tunnel

open BigEndian Ptcp Threads

/-- Actions that do not change the memory. -/
inductive Local (s : Shared) : Pc → Pc → Prop
  | callClose : Local s .idle (.close .enter .user)
  | callDial (port : UInt32) : Local s .idle (.dial (.enter port))
  | callConnClose (c : ConnId) : s.hist.returned c = true →
      Local s .idle (.connClose (.enter c))
  | callWrite (c : ConnId) (p : Bytes) : s.hist.returned c = true →
      Local s .idle (.write (.enter c p))
  | callRead (c : ConnId) (n : ℕ) : s.hist.returned c = true → Local s .idle (.read (.lock c n))
  | sendEnter (k : SendCall) : s.permit.once = true → k.writer = none →
      Local s (.send .enter k) (.send .await k)
  | sendEnterWriter (k : SendCall) (c : ConnId) : s.permit.once = true → k.writer = some c →
      Local s (.send .enter k) (.send .check k)
  | sendCheckClosed (k : SendCall) (c : ConnId) : k.writer = some c →
      (s.table.conns c).closed = true → Local s (.send .check k) (k.ret (some .tunnelClosed))
  | sendCheckExpired (k : SendCall) (c : ConnId) : k.writer = some c →
      Expired (s.table.conns c).writeDeadline s.now →
      Local s (.send .check k) (k.ret (some .deadlineExceeded))
  | sendCheck (k : SendCall) (c : ConnId) : k.writer = some c →
      (s.table.conns c).closed = false →
      Local s (.send .check k) (.send (.select (s.table.conns c).writeDeadline
        (s.table.conns c).writeDeadlineChanged) k)
  | sendSelectClosed (k : SendCall) (c : ConnId) (d : Time) (ch : ChanId) : k.writer = some c →
      (s.table.conns c).closeCh = true →
      Local s (.send (.select d ch) k) (k.ret (some .tunnelClosed))
  | sendSelectDone (k : SendCall) (d : Time) (ch : ChanId) : s.life.done = true →
      Local s (.send (.select d ch) k) (k.ret (some .tunnelClosed))
  | sendSelectChanged (k : SendCall) (d : Time) (ch : ChanId) : s.table.chanClosed ch = true →
      Local s (.send (.select d ch) k) (.send .check k)
  | sendSelectTimeout (k : SendCall) (d : Time) (ch : ChanId) : Expired d s.now →
      Local s (.send (.select d ch) k) (k.ret (some .deadlineExceeded))
  | sendWonDone (k : SendCall) : s.life.done = true → Local s (.send .won k) (.send .giveBack k)
  | sendWon (k : SendCall) (c : ConnId) : k.writer = some c → s.life.done = false →
      Local s (.send .won k) (.send .lockDeadline k)
  | sendReadDeadline (k : SendCall) (c : ConnId) : k.writer = some c →
      Local s (.send .readDeadline k)
        (.send (.setDeadline (s.table.conns c).closed (s.table.conns c).writeDeadline) k)
  | signalOnce (c : ConnId) (k : SignalCall) : (s.table.conns c).closeOnce = true →
      Local s (.signal .closeOnce c k) (.signal .lockDeadline c k)
  | closeAgain (k : CloseCall) : s.locks.mu = false → s.life.closed = true →
      Local s (.close .enter k) k.ret
  | closeSignalled (ids : List (UInt32 × ConnId)) (k : CloseCall) :
      Local s (.close (.signal [] ids) k) (.close (.disc ids) k)
  | closeSignal (todo ids : List (UInt32 × ConnId)) (i : ℕ) (id : UInt32) (c : ConnId)
      (k : CloseCall) : todo[i]? = some (id, c) →
      Local s (.close (.signal todo ids) k) (.signal .setClosed c (.close (todo.eraseIdx i) ids k))
  | closeDiscs (k : CloseCall) : Local s (.close (.disc []) k) (.close .finish k)
  | closeDisc (ids : List (UInt32 × ConnId)) (i : ℕ) (id : UInt32) (c : ConnId)
      (k : CloseCall) : ids[i]? = some (id, c) →
      Local s (.close (.disc ids) k) (.send .enter (.closeDisc id c (ids.eraseIdx i) k))
  | readerDone : s.life.done = true → Local s (.reader .top) .idle
  | readerTop : s.life.done = false → Local s (.reader .top) (.reader .recv)
  | readerTimeout : Local s (.reader .recv) (.reader .top)
  | readerError : Local s (.reader .recv) (.reader .readErr)
  | readerErrDone : s.life.done = true → Local s (.reader .readErr) .idle
  | readerParseError (d : Bytes) (e : ParseError) : parsePacket d = .error e →
      Local s (.reader (.parse d)) (.reader .top)
  | readerFull (realm : UInt32) (c : ConnId) (data : Bytes) :
      dataChCap ≤ (s.table.conns c).dataCh.length →
      Local s (.reader (.enqueue realm c data)) (.reader (.overflow realm c))
  | heartbeatTick : Local s (.heartbeat .loop) (.heartbeat .begin)
  | heartbeatDone : s.life.done = true → Local s (.heartbeat .loop) .idle
  | heartbeatClosed : s.locks.mu = false → s.life.closed = true →
      Local s (.heartbeat .begin) (.heartbeat .loop)
  | heartbeatBegin : s.locks.mu = false → s.life.closed = false →
      Local s (.heartbeat .begin) (.heartbeat .beat)
  | dialRefused (port : UInt32) : s.locks.mu = false →
      s.life.closed = true ∨ s.life.retired = true → Local s (.dial (.enter port)) .idle
  | dialEnter (port : UInt32) : s.locks.mu = false → s.life.closed = false →
      Local s (.dial (.enter port)) (.dial (.lock port))
  | dialRecheckFail (port : UInt32) (e : DialError) : s.locks.mu = false →
      s.life.closed = true ∨ s.life.retired = true →
      Local s (.dial (.recheck port)) (.dial (.ret (.error e)))
  | dialRecheck (port : UInt32) : s.locks.mu = false → s.life.closed = false →
      Local s (.dial (.recheck port)) (.dial (.draw port 0))
  | dialDraw (port : UInt32) (a : ℕ) (id : UInt32) : s.table.lookup id = none →
      Local s (.dial (.draw port a)) (.dial (.install port a id))
  | dialNoRealms (port : UInt32) (a : ℕ) (id : UInt32) : s.table.realms = none →
      Local s (.dial (.install port a id)) (.dial (.ret (.error .tunnelClosed)))
  | dialDone (port : UInt32) (a : ℕ) (id : UInt32) (c : ConnId) : s.life.done = true →
      Local s (.dial (.wait port a id c)) (.dial (.dropRealm port a id c (.fail .tunnelClosed)))
  | dialReport : s.locks.mu = false →
      Local s (.dial .report) (.dial (.ret (.error .dialTimeout)))
  | connCloseClosed (c : ConnId) : s.locks.mu = false → s.life.closed = true →
      Local s (.connClose (.check c)) (.connClose (.remove c))
  | connCloseDisc (c : ConnId) : s.locks.mu = false → s.life.closed = false →
      Local s (.connClose (.check c)) (.send .enter (.connClose (s.table.conns c).realmID c 0))
  | writeClosed (c : ConnId) (p : Bytes) : (s.table.conns c).closed = true →
      Local s (.write (.enter c p)) (.write (.ret c 0 (some .tunnelClosed)))
  | writeEnter (c : ConnId) (p : Bytes) : (s.table.conns c).closed = false →
      Local s (.write (.enter c p)) (.write (.check c p))
  | writeTunnelClosed (c : ConnId) (p : Bytes) : s.locks.mu = false → s.life.closed = true →
      Local s (.write (.check c p)) (.write (.ret c 0 (some .tunnelClosed)))
  | writeCheck (c : ConnId) (p : Bytes) : s.locks.mu = false → s.life.closed = false →
      Local s (.write (.check c p)) (.write (.loop c 0 p))
  | writeAll (c : ConnId) (n : ℕ) : Local s (.write (.loop c n [])) (.write (.ret c n none))
  | writeChunk (c : ConnId) (n : ℕ) (p : Bytes) : p ≠ [] →
      Local s (.write (.loop c n p)) (.send .enter (.write (s.table.conns c).realmID c n
        (p.take maxPayloadSize) (p.drop maxPayloadSize)))
  | writeRet (c : ConnId) (n : ℕ) (e : Option SendError) : Local s (.write (.ret c n e)) .idle
  | readDrain (c : ConnId) (n : ℕ) : (s.table.conns c).readBuf = [] →
      (s.table.conns c).closed = true → Local s (.read (.lock c n)) (.read (.drain c n))
  | readWait (c : ConnId) (n : ℕ) : (s.table.conns c).readBuf = [] →
      (s.table.conns c).closed = false →
      Local s (.read (.lock c n)) (.read (.select c n (s.table.conns c).readDeadline
        (s.table.conns c).readDeadlineChanged))
  | readClosed (c : ConnId) (n : ℕ) (d : Time) (ch : ChanId) :
      (s.table.conns c).closeCh = true → Local s (.read (.select c n d ch)) (.read (.lock c n))
  | readChanged (c : ConnId) (n : ℕ) (d : Time) (ch : ChanId) : s.table.chanClosed ch = true →
      Local s (.read (.select c n d ch)) (.read (.lock c n))
  | deadlineRead (c : ConnId) (t : Time) :
      Local s (.deadline (.read c t)) (.deadline (.update c t (s.table.conns c).closed))

/-- Actions that change the memory. -/
inductive Effect (s : Shared) : Pc → Shared → Pc → Prop
  | retire : s.locks.mu = false → Effect s .idle { s with life.retired := true } .idle
  | setOnCloseLate : s.locks.mu = false → s.life.closed = true →
      Effect s .idle { s with life.callbacks := s.life.callbacks + 1 } .idle
  | setOnClose : s.locks.mu = false → s.life.closed = false →
      Effect s .idle { s with life.onClose := true } .idle
  | setDeadline (c : ConnId) (t : Time) : s.hist.returned c = true →
      Effect s .idle ((s.setReadDeadline c t).setWriteDeadline c t) (.deadline (.lock c t))
  | setReadDeadline (c : ConnId) (t : Time) : s.hist.returned c = true →
      Effect s .idle (s.setReadDeadline c t) .idle
  | setWriteDeadline (c : ConnId) (t : Time) : s.hist.returned c = true →
      Effect s .idle (s.setWriteDeadline c t) (.deadline (.lock c t))
  | flushFires (i : ℕ) : i ∈ s.acks.armed →
      Effect s .idle { s with acks.armed := s.acks.armed.erase i } (.flush .lock)
  | sendOnce (k : SendCall) : s.permit.once = false → k.writer = none →
      Effect s (.send .enter k) { s with permit := ⟨true, true⟩ } (.send .await k)
  | sendOnceWriter (k : SendCall) (c : ConnId) : s.permit.once = false → k.writer = some c →
      Effect s (.send .enter k) { s with permit := ⟨true, true⟩ } (.send .check k)
  | sendTake (k : SendCall) : s.permit.token = true →
      Effect s (.send .await k) { s with permit.token := false } (.send .build k)
  | sendTakeWriter (k : SendCall) (c : ConnId) (d : Time) (ch : ChanId) : k.writer = some c →
      s.permit.token = true →
      Effect s (.send (.select d ch) k) { s with permit.token := false } (.send .won k)
  | sendGiveBack (k : SendCall) : s.permit.token = false →
      Effect s (.send .giveBack k) { s with permit.token := true } (k.ret (some .tunnelClosed))
  | sendLockDeadline (k : SendCall) : s.locks.writeDeadlineMu = false →
      Effect s (.send .lockDeadline k) { s with locks.writeDeadlineMu := true }
        (.send .readDeadline k)
  | sendSkip (k : SendCall) (closed : Bool) (d : Time) (e : SendError) :
      closed = true ∧ e = .tunnelClosed ∨ Expired d s.now ∧ e = .deadlineExceeded →
      Effect s (.send (.setDeadline closed d) k) { s with locks.writeDeadlineMu := false }
        (.send (.release (some e)) k)
  | sendSetDeadline (k : SendCall) (c : ConnId) (d : Time) : k.writer = some c →
      ¬ Expired d s.now →
      Effect s (.send (.setDeadline false d) k)
        { s with locks.writeDeadlineMu := false
                 sock := { writeDeadline := d, activeWriter := some c } } (.send .build k)
  | sendSetDeadlineError (k : SendCall) (d : Time) :
      Effect s (.send (.setDeadline false d) k)
        { s with locks.writeDeadlineMu := false, sock.activeWriter := none }
        (.send (.release (some .io)) k)
  | sendBuild (k : SendCall) :
      Effect s (.send .build k)
        { s with session := (s.session.send k.body).1
                 hist.built := s.hist.built ++ [(s.session.send k.body).2] }
        (.send (.write (s.session.send k.body).2) k)
  | sendWriteOk (k : SendCall) (q : Packet) : s.Writable →
      Effect s (.send (.write q) k) { s with hist := (s.hist.hand q k).transmit q k }
        (k.written none)
  | sendWriteFail (k : SendCall) (q : Packet) :
      Effect s (.send (.write q) k)
        { s with hist := { s.hist.hand q k with failed := s.hist.failed + 1 } }
        (k.written (some .io))
  | sendWriteBlock (k : SendCall) (c : ConnId) (q : Packet) : k.writer = some c → s.Writable →
      Effect s (.send (.write q) k) { s with hist := s.hist.hand q k } (.send (.blocked q) k)
  | sendBlockedOk (k : SendCall) (q : Packet) : s.life.socketClosed = false →
      Effect s (.send (.blocked q) k) { s with hist := s.hist.transmit q k } (k.written none)
  | sendBlockedFail (k : SendCall) (q : Packet) :
      Effect s (.send (.blocked q) k) { s with hist.failed := s.hist.failed + 1 }
        (k.written (some .io))
  | sendRelock (k : SendCall) (e : Option SendError) : s.locks.writeDeadlineMu = false →
      Effect s (.send (.relockDeadline e) k) { s with locks.writeDeadlineMu := true }
        (.send (.clearDeadline e) k)
  | sendClear (k : SendCall) (e : Option SendError) :
      Effect s (.send (.clearDeadline e) k)
        { s with locks.writeDeadlineMu := false
                 sock := { writeDeadline := 0, activeWriter := none } } (.send (.release e) k)
  | sendRelease (k : SendCall) (e : Option SendError) : s.permit.token = false →
      Effect s (.send (.release e) k) { s with permit.token := true } (k.ret e)
  | signalSetClosed (c : ConnId) (k : SignalCall) :
      Effect s (.signal .setClosed c k)
        { s with table := s.table.setConn c { s.table.conns c with closed := true } }
        (.signal .closeOnce c k)
  | signalCloseCh (c : ConnId) (k : SignalCall) : (s.table.conns c).closeOnce = false →
      Effect s (.signal .closeOnce c k)
        { s with table := s.table.setConn c
                   { s.table.conns c with closeOnce := true, closeCh := true }
                 life := s.life.closing (s.table.conns c).closeCh } (.signal .lockDeadline c k)
  | signalLock (c : ConnId) (k : SignalCall) : s.locks.writeDeadlineMu = false →
      Effect s (.signal .lockDeadline c k) { s with locks.writeDeadlineMu := true }
        (.signal .interrupt c k)
  | signalInterrupt (c : ConnId) (k : SignalCall) :
      Effect s (.signal .interrupt c k)
        { s with locks.writeDeadlineMu := false
                 sock := if s.sock.activeWriter = some c then
                     { s.sock with writeDeadline := s.now }
                   else s.sock } (k.ret c)
  | closeEnter (k : CloseCall) : s.locks.mu = false → s.life.closed = false →
      Effect s (.close .enter k)
        { s with locks.mu := true
                 life := { s.life.closing s.life.done with closed := true, done := true } }
        (.close .stopAck k)
  | closeStopAck (k : CloseCall) (armed : List ℕ) : s.locks.ackMu = false →
      (∀ i ∈ armed, i ∈ s.acks.armed) →
      Effect s (.close .stopAck k) { s with acks.armed := armed } (.close .swap k)
  | closeSwap (k : CloseCall) :
      Effect s (.close .swap k) { s with table.realms := none }
        (.close (.signal ((s.table.realms.map realmEntries).getD [])
          ((s.table.realms.map realmEntries).getD [])) k)
  | closeFinish (k : CloseCall) :
      Effect s (.close .finish k) { s with locks.mu := false, life.socketClosed := true }
        (.close (.callback s.life.onClose) k)
  | closeCallback (k : CloseCall) (installed : Bool) :
      Effect s (.close (.callback installed) k)
        { s with life.callbacks := s.life.callbacks + if installed then 1 else 0 } k.ret
  | readerData (d : Bytes) : s.life.socketClosed = false →
      Effect s (.reader .recv) { s with health.consecutiveReadErrs := 0 } (.reader (.parse d))
  | readerErr : s.life.done = false →
      s.health.consecutiveReadErrs + 1 < maxConsecutiveReadErrors →
      Effect s (.reader .readErr)
        { s with health.consecutiveReadErrs := s.health.consecutiveReadErrs + 1 } (.reader .top)
  | readerErrClose : s.life.done = false →
      maxConsecutiveReadErrors ≤ s.health.consecutiveReadErrs + 1 →
      Effect s (.reader .readErr)
        { s with health.consecutiveReadErrs := s.health.consecutiveReadErrs + 1 }
        (.close .enter .reader)
  | readerParse (d : Bytes) (q : Packet) : parsePacket d = .ok q →
      Effect s (.reader (.parse d))
        { s with health.missedHeartbeats := 0, health.lastAckTime := s.now } (.reader (.count q))
  | readerCount (q : Packet) :
      Effect s (.reader (.count q)) { s with session := s.session.recvPacket q } (dispatch q.body)
  | readerConnUnknown (realm : UInt32) : s.table.connCh.lookup realm = none →
      Effect s (.reader (.conn realm))
        { s with hist.granted := Function.update s.hist.granted realm true } (.reader .ack)
  | readerConn (realm : UInt32) (c : ConnId) : s.table.connCh.lookup realm = some c →
      (s.table.conns c).connCh = false →
      Effect s (.reader (.conn realm))
        { s with table := { s.table.setConn c { s.table.conns c with connCh := true } with
                   connCh := s.table.connCh.erase realm }
                 hist.granted := Function.update s.hist.granted realm true } (.reader .ack)
  | readerDiscUnknown (realm : UInt32) : s.table.lookup realm = none →
      Effect s (.reader (.disc realm))
        { s with hist.disc := Function.update s.hist.disc realm true } (.reader .ack)
  | readerDisc (realm : UInt32) (c : ConnId) : s.table.lookup realm = some c →
      Effect s (.reader (.disc realm))
        { s with table := s.table.delete realm
                 hist := { s.hist with
                   disc := Function.update s.hist.disc realm true
                   torn := Function.update s.hist.torn c (some (s.hist.enqueued c)) } }
        (.signal .setClosed c .readerDisc)
  | readerLookupUnknown (realm : UInt32) (data : Bytes) : s.table.lookup realm = none →
      Effect s (.reader (.lookup realm data))
        { s with hist.inbox := s.hist.inbox ++ [(realm, data)] } (.reader .ack)
  | readerLookup (realm : UInt32) (data : Bytes) (c : ConnId) : s.table.lookup realm = some c →
      Effect s (.reader (.lookup realm data))
        { s with hist.inbox := s.hist.inbox ++ [(realm, data)] } (.reader (.enqueue realm c data))
  | readerEnqueue (realm : UInt32) (c : ConnId) (data : Bytes) :
      (s.table.conns c).dataCh.length < dataChCap →
      Effect s (.reader (.enqueue realm c data))
        { s with table := s.table.setConn c
                   { s.table.conns c with dataCh := (s.table.conns c).dataCh ++ [data] }
                 hist.enqueued := Function.update s.hist.enqueued c
                   (s.hist.enqueued c ++ [data]) } (.reader .ack)
  | readerOverflow (realm : UInt32) (c : ConnId) :
      Effect s (.reader (.overflow realm c))
        { s with table := s.table.delete realm
                 hist.torn := Function.update s.hist.torn c (some (s.hist.enqueued c)) }
        (.signal .setClosed c (.readerOverflow realm))
  | readerAck : s.locks.ackMu = false →
      Effect s (.reader .ack) { s with acks := s.acks.schedule } (.reader .top)
  | heartbeatBeat : s.health.missedHeartbeats + 1 ≤ maxMissedHeartbeats →
      Effect s (.heartbeat .beat)
        { s with health.missedHeartbeats := s.health.missedHeartbeats + 1 }
        (.send .enter .heartbeat)
  | heartbeatMissed : maxMissedHeartbeats < s.health.missedHeartbeats + 1 →
      Effect s (.heartbeat .beat)
        { s with health.missedHeartbeats := s.health.missedHeartbeats + 1 }
        (.close .enter .heartbeat)
  | heartbeatDrains (h : Health) : s.health.outboundStalled s.session.stats s.now = (h, false) →
      Effect s (.heartbeat .stalled) { s with health := h } (.heartbeat .loop)
  | heartbeatStalled (h : Health) : s.health.outboundStalled s.session.stats s.now = (h, true) →
      Effect s (.heartbeat .stalled) { s with health := h } (.close .enter .heartbeat)
  | flushLock : s.locks.ackMu = false →
      Effect s (.flush .lock) { s with locks.ackMu := true } (.send .enter .flush)
  | flushSent (e : Option SendError) :
      e = none ∨ s.acks.consecutiveSendErrs + 1 < maxConsecutiveSendErrors →
      Effect s (.flush (.sent e)) (s.flushed e) .idle
  | flushClose (e : SendError) : maxConsecutiveSendErrors ≤ s.acks.consecutiveSendErrs + 1 →
      Effect s (.flush (.sent (some e))) (s.flushed (some e)) (.close .enter .flush)
  | dialLock (port : UInt32) : s.locks.dialMu = false →
      Effect s (.dial (.lock port)) { s with locks.dialMu := true } (.dial (.recheck port))
  | dialInstall (port : UInt32) (a : ℕ) (id : UInt32) (m : RealmMap) : s.table.realms = some m →
      Effect s (.dial (.install port a id))
        { s with table := s.table.install m id port
                 hist.installedAt := Function.update s.hist.installedAt s.table.connCount
                   s.hist.inbox.length } (.dial (.register port a id s.table.connCount))
  | dialRegister (port : UInt32) (a : ℕ) (id : UInt32) (c : ConnId) :
      Effect s (.dial (.register port a id c))
        { s with table.connCh := s.table.connCh.insert id c } (.send .enter (.dial port a id c))
  | dialGranted (port : UInt32) (a : ℕ) (id : UInt32) (c : ConnId) :
      (s.table.conns c).connCh = true →
      Effect s (.dial (.wait port a id c))
        { s with table := s.table.setConn c { s.table.conns c with connCh := false }
                 health.bindFailures := 0
                 hist.returned := Function.update s.hist.returned c true } (.dial (.ret (.ok c)))
  | dialTimeout (port : UInt32) (a : ℕ) (id : UInt32) (c : ConnId) :
      Effect s (.dial (.wait port a id c))
        { s with hist.timedOut := Function.update s.hist.timedOut c true }
        (.dial (.dropRealm port a id c .retry))
  | dialDropRealm (port : UInt32) (a : ℕ) (id : UInt32) (c : ConnId) (why : Cleanup) :
      Effect s (.dial (.dropRealm port a id c why)) { s with table := s.table.delete id }
        (.dial (.dropConnCh port a id c why))
  | dialFail (port : UInt32) (a : ℕ) (id : UInt32) (c : ConnId) (e : DialError) :
      Effect s (.dial (.dropConnCh port a id c (.fail e)))
        { s with table.connCh := s.table.connCh.erase id } (.dial (.ret (.error e)))
  | dialRetry (port : UInt32) (a : ℕ) (id : UInt32) (c : ConnId) : a + 1 < maxRetries →
      Effect s (.dial (.dropConnCh port a id c .retry))
        { s with table.connCh := s.table.connCh.erase id } (.dial (.draw port (a + 1)))
  | dialGiveUp (port : UInt32) (a : ℕ) (id : UInt32) (c : ConnId) : maxRetries ≤ a + 1 →
      Effect s (.dial (.dropConnCh port a id c .retry))
        { s with table.connCh := s.table.connCh.erase id } (.dial .exhausted)
  | dialExhausted :
      Effect s (.dial .exhausted)
        { s with health.bindFailures := s.health.bindFailures + 1 } (.dial .report)
  | dialRet (r : Except DialError ConnId) :
      Effect s (.dial (.ret r)) { s with locks.dialMu := false } .idle
  | connCloseEnter (c : ConnId) :
      Effect s (.connClose (.enter c))
        { s with table := s.table.setConn c { s.table.conns c with closed := true }
                 hist.closeCalled := Function.update s.hist.closeCalled c true }
        (.signal .setClosed c (.connClose (s.table.conns c).closed))
  | connCloseRemove (c : ConnId) :
      Effect s (.connClose (.remove c))
        { s with table := s.table.delete (s.table.conns c).realmID } .idle
  | readBuffered (c : ConnId) (n : ℕ) : (s.table.conns c).readBuf ≠ [] →
      Effect s (.read (.lock c n))
        { s with table := s.table.setConn c
                   { s.table.conns c with readBuf := (s.table.conns c).readBuf.drop n }
                 hist := s.hist.logRead c (.ok ((s.table.conns c).readBuf.take n)) } .idle
  | readExpired (c : ConnId) (n : ℕ) : (s.table.conns c).readBuf = [] →
      (s.table.conns c).closed = false → Expired (s.table.conns c).readDeadline s.now →
      Effect s (.read (.lock c n))
        { s with hist := s.hist.logRead c (.error .deadlineExceeded) } .idle
  | readDrained (c : ConnId) (n : ℕ) (data : Bytes) (rest : List Bytes) :
      (s.table.conns c).dataCh = data :: rest →
      Effect s (.read (.drain c n))
        { s with table := s.table.setConn c { s.table.conns c with dataCh := rest } }
        (.read (.copy c n data))
  | readEof (c : ConnId) (n : ℕ) : (s.table.conns c).dataCh = [] →
      Effect s (.read (.drain c n)) { s with hist := s.hist.logRead c (.error .eof) } .idle
  | readData (c : ConnId) (n : ℕ) (d : Time) (ch : ChanId) (data : Bytes) (rest : List Bytes) :
      (s.table.conns c).dataCh = data :: rest →
      Effect s (.read (.select c n d ch))
        { s with table := s.table.setConn c { s.table.conns c with dataCh := rest } }
        (.read (.copy c n data))
  | readTimeout (c : ConnId) (n : ℕ) (d : Time) (ch : ChanId) : Expired d s.now →
      Effect s (.read (.select c n d ch))
        { s with hist := s.hist.logRead c (.error .deadlineExceeded) } .idle
  | readCopy (c : ConnId) (n : ℕ) (data : Bytes) :
      Effect s (.read (.copy c n data))
        { s with table := s.table.setConn c
                   { s.table.conns c with
                     readBuf := (s.table.conns c).readBuf ++ data.drop n }
                 hist := s.hist.logRead c (.ok (data.take n)) } .idle
  | deadlineLock (c : ConnId) (t : Time) : s.locks.writeDeadlineMu = false →
      Effect s (.deadline (.lock c t)) { s with locks.writeDeadlineMu := true }
        (.deadline (.read c t))
  | deadlineKeep (c : ConnId) (t : Time) (closed : Bool) (r : UdpResult) :
      ¬ (closed = false ∧ s.sock.activeWriter = some c ∧ r = .ok) →
      Effect s (.deadline (.update c t closed)) { s with locks.writeDeadlineMu := false } .idle
  | deadlineUpdate (c : ConnId) (t : Time) : s.sock.activeWriter = some c →
      Effect s (.deadline (.update c t false))
        { s with locks.writeDeadlineMu := false, sock.writeDeadline := t } .idle

/-! ### Every step is one of these actions -/

/-- A step of `next`: a local action, or one with an effect. -/
def Acts (s : Shared) (pc : Pc) (s' : Shared) (pc' : Pc) : Prop :=
  (s' = s ∧ Local s pc pc') ∨ Effect s pc s' pc'

variable {s s' : Shared} {pc' : Pc} {ch : Choice}

theorem Acts.local {pc : Pc} (h : Local s pc pc') : Acts s pc s pc' := Or.inl ⟨rfl, h⟩

/-- The goroutines do not touch the clock. -/
theorem Acts.now_eq {pc : Pc} (h : Acts s pc s' pc') : s'.now = s.now := by
  rcases h with ⟨rfl, _⟩ | h
  · rfl
  · cases h <;> rfl

theorem Acts.effect {pc : Pc} (h : Effect s pc s' pc') : Acts s pc s' pc' := Or.inr h

theorem stepCall_acts {c : Call} (h : stepCall s c = some (s', pc')) : Acts s .idle s' pc' := by
  unfold stepCall at h
  split at h <;> (try split at h) <;> (try split at h) <;>
    simp only [reduceCtorEq, Option.some.injEq, Prod.mk.injEq] at h <;> obtain ⟨rfl, rfl⟩ := h
  · exact .local .callClose
  · exact .local (.callDial _)
  · exact .effect (.retire (Bool.of_not_eq_true ‹_›))
  · exact .effect (.setOnCloseLate (Bool.of_not_eq_true ‹_›) ‹_›)
  · exact .effect (.setOnClose (Bool.of_not_eq_true ‹¬ s.locks.mu = true›)
      (Bool.of_not_eq_true ‹_›))
  · exact .local (.callConnClose _ ‹_›)
  · exact .local (.callWrite _ _ ‹_›)
  · exact .local (.callRead _ _ ‹_›)
  · exact .effect (.setDeadline _ _ ‹_›)
  · exact .effect (.setReadDeadline _ _ ‹_›)
  · exact .effect (.setWriteDeadline _ _ ‹_›)
  · exact .effect (.flushFires _ ‹_›)

theorem stepAcquire_acts {c : ConnId} {p : SendPc} {k : SendCall} (hk : k.writer = some c)
    (h : stepAcquire s c p k ch = some (s', pc')) : Acts s (.send p k) s' pc' := by
  unfold stepAcquire at h
  dsimp only at h
  split at h <;> (try split at h) <;> (try split at h) <;>
    simp only [reduceCtorEq, Option.some.injEq, Prod.mk.injEq] at h <;> obtain ⟨rfl, rfl⟩ := h
  · exact .local (.sendCheckClosed k c hk ‹_›)
  · exact .local (.sendCheckExpired k c hk ‹_›)
  · exact .local (.sendCheck k c hk (Bool.of_not_eq_true ‹_›))
  · exact .local (.sendSelectClosed k c _ _ hk ‹_›)
  · exact .local (.sendSelectDone k _ _ ‹_›)
  · exact .local (.sendSelectChanged k _ _ ‹_›)
  · exact .local (.sendSelectTimeout k _ _ ‹_›)
  · exact .effect (.sendTakeWriter k c _ _ hk ‹_›)
  · exact .local (.sendWonDone k ‹_›)
  · exact .local (.sendWon k c hk (Bool.of_not_eq_true ‹_›))
  · exact .effect (.sendGiveBack k (Bool.of_not_eq_true ‹_›))

theorem stepWriter_acts {c : ConnId} {p : SendPc} {k : SendCall} (hk : k.writer = some c)
    (h : stepWriter s c p k ch = some (s', pc')) : Acts s (.send p k) s' pc' := by
  unfold stepWriter at h
  split at h <;> (try split at h) <;> (try split at h) <;> (try split at h) <;>
    simp only [reduceCtorEq, Option.some.injEq, Prod.mk.injEq] at h <;> obtain ⟨rfl, rfl⟩ := h
  · exact .effect (.sendLockDeadline k (Bool.of_not_eq_true ‹_›))
  · exact .local (.sendReadDeadline k c hk)
  · exact .effect (.sendSkip k _ _ _ (Or.inl ⟨‹_›, rfl⟩))
  · exact .effect (.sendSkip k _ _ _ (Or.inr ⟨‹_›, rfl⟩))
  · have hc := Bool.of_not_eq_true ‹_›
    subst hc
    exact .effect (.sendSetDeadline k c _ hk ‹_›)
  · have hc := Bool.of_not_eq_true ‹_›
    subst hc
    exact .effect (.sendSetDeadlineError k _)
  · exact .effect (.sendRelock k _ (Bool.of_not_eq_true ‹_›))
  · exact .effect (.sendClear k _)

theorem stepSend_acts {p : SendPc} {k : SendCall} (h : stepSend s p k ch = some (s', pc')) :
    Acts s (.send p k) s' pc' := by
  unfold stepSend at h
  dsimp only at h
  split at h
  case h_11 =>
    split at h
    · cases h
    · rename_i c hk
      rcases Option.or_eq_some_iff.mp h with ha | ⟨_, hw⟩
      · exact stepAcquire_acts hk ha
      · exact stepWriter_acts hk hw
  all_goals
    (try split at h) <;> (try split at h) <;>
    simp only [reduceCtorEq, Option.some.injEq, Prod.mk.injEq] at h <;> obtain ⟨rfl, rfl⟩ := h
  · exact .local (.sendEnter k ‹_› ‹_›)
  · exact .effect (.sendOnce k (Bool.of_not_eq_true ‹_›) ‹_›)
  · exact .local (.sendEnterWriter k _ ‹_› ‹_›)
  · exact .effect (.sendOnceWriter k _ (Bool.of_not_eq_true ‹_›) ‹_›)
  · exact .effect (.sendTake k ‹_›)
  · exact .effect (.sendBuild k)
  · exact .effect (.sendWriteOk k _ ‹_›)
  · exact .effect (.sendWriteFail k _)
  · rename_i hw
    obtain ⟨c, hc⟩ := Option.isSome_iff_exists.mp hw.2
    exact .effect (.sendWriteBlock k c _ hc hw.1)
  · exact .effect (.sendBlockedFail k _)
  · exact .effect (.sendBlockedOk k _ (Bool.of_not_eq_true ‹_›))
  · exact .effect (.sendBlockedFail k _)
  · exact .effect (.sendRelease k _ (Bool.of_not_eq_true ‹_›))

theorem stepSignal_acts {p : SignalPc} {c : ConnId} {k : SignalCall}
    (h : stepSignal s p c k ch = some (s', pc')) : Acts s (.signal p c k) s' pc' := by
  unfold stepSignal at h
  dsimp only at h
  split at h
  case h_4 =>
    simp only [Option.some.injEq, Prod.mk.injEq] at h
    obtain ⟨rfl, rfl⟩ := h
    exact .effect (.signalInterrupt c k)
  all_goals
    (try split at h) <;>
    simp only [reduceCtorEq, Option.some.injEq, Prod.mk.injEq] at h <;> obtain ⟨rfl, rfl⟩ := h
  · exact .effect (.signalSetClosed c k)
  · exact .local (.signalOnce c k ‹_›)
  · exact .effect (.signalCloseCh c k (Bool.of_not_eq_true ‹_›))
  · exact .effect (.signalLock c k (Bool.of_not_eq_true ‹_›))

theorem stepClose_acts {p : ClosePc} {k : CloseCall} (h : stepClose s p k ch = some (s', pc')) :
    Acts s (.close p k) s' pc' := by
  unfold stepClose at h
  dsimp only at h
  split at h
  case h_9 =>
    simp only [Option.some.injEq, Prod.mk.injEq] at h
    obtain ⟨rfl, rfl⟩ := h
    exact .effect (.closeCallback k _)
  all_goals
    (try split at h) <;> (try split at h) <;>
    simp only [reduceCtorEq, Option.some.injEq, Prod.mk.injEq] at h <;> obtain ⟨rfl, rfl⟩ := h
  · exact .local (.closeAgain k (Bool.of_not_eq_true ‹_›) ‹_›)
  · exact .effect (.closeEnter k (Bool.of_not_eq_true ‹¬ s.locks.mu = true›)
      (Bool.of_not_eq_true ‹_›))
  · exact .effect (.closeStopAck k _ (Bool.of_not_eq_true ‹_›) fun _ => List.mem_of_mem_erase)
  · exact .effect (.closeStopAck k _ (Bool.of_not_eq_true ‹_›) fun _ => id)
  · exact .effect (.closeSwap k)
  · exact .local (.closeSignalled _ k)
  · exact .local (.closeSignal _ _ _ _ _ k ‹_›)
  · exact .local (.closeDiscs k)
  · exact .local (.closeDisc _ _ _ _ k ‹_›)
  · exact .effect (.closeFinish k)

theorem stepReader_acts {p : ReaderPc} (h : stepReader s p ch = some (s', pc')) :
    Acts s (.reader p) s' pc' := by
  unfold stepReader at h
  cases p <;> cases ch
  case top.go =>
    dsimp only at h
    split at h <;> cases h
    · exact .local (.readerDone ‹_›)
    · exact .local (.readerTop (Bool.of_not_eq_true ‹_›))
  case recv.recv r =>
    cases r with
    | timeout =>
        cases h
        exact .local .readerTimeout
    | error =>
        cases h
        exact .local .readerError
    | data d =>
        obtain ⟨hopen, he⟩ := Option.ite_none_left_eq_some.mp h
        cases he
        exact .effect (.readerData d (Bool.of_not_eq_true hopen))
  case readErr.go =>
    dsimp only at h
    split at h
    · cases h
      exact .local (.readerErrDone ‹_›)
    · split at h <;> cases h
      · exact .effect (.readerErrClose (Bool.of_not_eq_true ‹_›) ‹_›)
      · exact .effect (.readerErr (Bool.of_not_eq_true ‹_›) (by omega))
  case parse.go d =>
    dsimp only at h
    split at h <;> cases h
    · exact .local (.readerParseError d _ ‹_›)
    · exact .effect (.readerParse d _ ‹_›)
  case count.go q =>
    cases h
    exact .effect (.readerCount q)
  case conn.go realm =>
    dsimp only at h
    split at h
    · cases h
      exact .effect (.readerConnUnknown realm ‹_›)
    · obtain ⟨hempty, he⟩ := Option.ite_none_left_eq_some.mp h
      cases he
      exact .effect (.readerConn realm _ ‹_› (Bool.of_not_eq_true hempty))
  case disc.go realm =>
    dsimp only at h
    split at h <;> cases h
    · exact .effect (.readerDiscUnknown realm ‹_›)
    · exact .effect (.readerDisc realm _ ‹_›)
  case lookup.go realm data =>
    dsimp only at h
    split at h <;> cases h
    · exact .effect (.readerLookupUnknown realm data ‹_›)
    · exact .effect (.readerLookup realm data _ ‹_›)
  case enqueue.go realm c data =>
    dsimp only at h
    split at h <;> cases h
    · exact .effect (.readerEnqueue realm c data ‹_›)
    · exact .local (.readerFull realm c data (by omega))
  case overflow.go realm c =>
    cases h
    exact .effect (.readerOverflow realm c)
  case ack.go =>
    obtain ⟨hfree, he⟩ := Option.ite_none_left_eq_some.mp h
    cases he
    exact .effect (.readerAck (Bool.of_not_eq_true hfree))
  all_goals cases h

theorem stepHeartbeat_acts {p : HeartbeatPc} (h : stepHeartbeat s p ch = some (s', pc')) :
    Acts s (.heartbeat p) s' pc' := by
  unfold stepHeartbeat at h
  dsimp only at h
  split at h <;> (try split at h) <;> (try split at h) <;>
    simp only [reduceCtorEq, Option.some.injEq, Prod.mk.injEq] at h <;> obtain ⟨rfl, rfl⟩ := h
  · exact .local .heartbeatTick
  · exact .local (.heartbeatDone ‹_›)
  · exact .local (.heartbeatClosed (Bool.of_not_eq_true ‹_›) ‹_›)
  · exact .local (.heartbeatBegin (Bool.of_not_eq_true ‹¬ s.locks.mu = true›)
      (Bool.of_not_eq_true ‹_›))
  · exact .effect (.heartbeatMissed ‹_›)
  · exact .effect (.heartbeatBeat (by omega))
  · exact .effect (.heartbeatStalled _ (Prod.ext rfl ‹_›))
  · exact .effect (.heartbeatDrains _ (Prod.ext rfl (Bool.of_not_eq_true ‹_›)))

theorem stepFlush_acts {p : FlushPc} (h : stepFlush s p ch = some (s', pc')) :
    Acts s (.flush p) s' pc' := by
  unfold stepFlush at h
  split at h
  case h_2 e =>
    simp only [Option.some.injEq, Prod.mk.injEq] at h
    obtain ⟨rfl, rfl⟩ := h
    cases e with
    | none => exact .effect (.flushSent none (Or.inl rfl))
    | some e =>
        by_cases he : maxConsecutiveSendErrors ≤ s.acks.consecutiveSendErrs + 1
        · simpa [Shared.flushed, he] using Acts.effect (.flushClose (s := s) e he)
        · simpa [Shared.flushed, he] using
            Acts.effect (.flushSent (s := s) (some e) (Or.inr (by omega)))
  all_goals
    (try split at h) <;>
    simp only [reduceCtorEq, Option.some.injEq, Prod.mk.injEq] at h <;> obtain ⟨rfl, rfl⟩ := h
  exact .effect (.flushLock (Bool.of_not_eq_true ‹_›))

theorem stepDial_acts {p : DialPc} (h : stepDial s p ch = some (s', pc')) :
    Acts s (.dial p) s' pc' := by
  unfold stepDial at h
  cases p <;> cases ch
  case enter.go port =>
    obtain ⟨hmu, he⟩ := Option.ite_none_left_eq_some.mp h
    split at he <;> cases he
    · exact .local (.dialRefused port (Bool.of_not_eq_true hmu) ‹_›)
    · rename_i hopen
      exact .local (.dialEnter port (Bool.of_not_eq_true hmu)
        (Bool.of_not_eq_true fun hc => hopen (Or.inl hc)))
  case lock.go port =>
    obtain ⟨hmu, he⟩ := Option.ite_none_left_eq_some.mp h
    cases he
    exact .effect (.dialLock port (Bool.of_not_eq_true hmu))
  case recheck.go port =>
    obtain ⟨hmu, he⟩ := Option.ite_none_left_eq_some.mp h
    split at he
    · cases he
      exact .local (.dialRecheckFail port _ (Bool.of_not_eq_true hmu) (Or.inl ‹_›))
    · split at he <;> cases he
      · exact .local (.dialRecheckFail port _ (Bool.of_not_eq_true hmu) (Or.inr ‹_›))
      · exact .local (.dialRecheck port (Bool.of_not_eq_true hmu)
          (Bool.of_not_eq_true ‹¬ s.life.closed = true›))
  case draw.draw port a id =>
    obtain ⟨hfree, he⟩ := Option.ite_none_left_eq_some.mp h
    cases he
    exact .local (.dialDraw port a id (Option.not_isSome_iff_eq_none.mp hfree))
  case install.go port a id =>
    dsimp only at h
    split at h <;> cases h
    · exact .local (.dialNoRealms port a id ‹_›)
    · exact .effect (.dialInstall port a id _ ‹_›)
  case register.go port a id c =>
    cases h
    exact .effect (.dialRegister port a id c)
  case wait.select port a id c b =>
    cases b with
    | conn =>
        obtain ⟨hgranted, he⟩ := Option.ite_none_right_eq_some.mp h
        cases he
        exact .effect (.dialGranted port a id c hgranted)
    | done =>
        obtain ⟨hdone, he⟩ := Option.ite_none_right_eq_some.mp h
        cases he
        exact .local (.dialDone port a id c hdone)
    | timeout =>
        cases h
        exact .effect (.dialTimeout port a id c)
    | _ => cases h
  case dropRealm.go port a id c why =>
    cases h
    exact .effect (.dialDropRealm port a id c why)
  case dropConnCh.go port a id c why =>
    cases why with
    | fail e =>
        cases h
        exact .effect (.dialFail port a id c e)
    | retry =>
        dsimp only at h
        split at h <;> cases h
        · exact .effect (.dialRetry port a id c ‹_›)
        · exact .effect (.dialGiveUp port a id c (by omega))
  case exhausted.go =>
    cases h
    exact .effect .dialExhausted
  case report.go =>
    obtain ⟨hmu, he⟩ := Option.ite_none_left_eq_some.mp h
    cases he
    exact .local (.dialReport (Bool.of_not_eq_true hmu))
  case ret.go r =>
    cases h
    exact .effect (.dialRet r)
  all_goals cases h

theorem stepConnClose_acts {p : ConnClosePc} (h : stepConnClose s p ch = some (s', pc')) :
    Acts s (.connClose p) s' pc' := by
  unfold stepConnClose at h
  dsimp only at h
  split at h <;> (try split at h) <;> (try split at h) <;>
    simp only [reduceCtorEq, Option.some.injEq, Prod.mk.injEq] at h <;> obtain ⟨rfl, rfl⟩ := h
  · exact .effect (.connCloseEnter _)
  · exact .local (.connCloseClosed _ (Bool.of_not_eq_true ‹_›) ‹_›)
  · exact .local (.connCloseDisc _ (Bool.of_not_eq_true ‹¬ s.locks.mu = true›)
      (Bool.of_not_eq_true ‹_›))
  · exact .effect (.connCloseRemove _)

theorem stepWrite_acts {p : WritePc} (h : stepWrite s p ch = some (s', pc')) :
    Acts s (.write p) s' pc' := by
  unfold stepWrite at h
  split at h <;> (try split at h) <;> (try split at h) <;>
    simp only [reduceCtorEq, Option.some.injEq, Prod.mk.injEq] at h <;> obtain ⟨rfl, rfl⟩ := h
  · exact .local (.writeClosed _ _ ‹_›)
  · exact .local (.writeEnter _ _ (Bool.of_not_eq_true ‹_›))
  · exact .local (.writeTunnelClosed _ _ (Bool.of_not_eq_true ‹_›) ‹_›)
  · exact .local (.writeCheck _ _ (Bool.of_not_eq_true ‹¬ s.locks.mu = true›)
      (Bool.of_not_eq_true ‹_›))
  · exact .local (.writeAll _ _)
  · exact .local (.writeChunk _ _ _ (List.cons_ne_nil _ _))
  · exact .local (.writeRet _ _ _)

theorem stepRead_acts {p : ReadPc} (h : stepRead s p ch = some (s', pc')) :
    Acts s (.read p) s' pc' := by
  unfold stepRead at h
  dsimp only at h
  split at h <;> (try split at h) <;> (try split at h) <;> (try split at h) <;>
    simp only [reduceCtorEq, Option.some.injEq, Prod.mk.injEq] at h <;> obtain ⟨rfl, rfl⟩ := h
  · exact .effect (.readBuffered _ _ ‹_›)
  · exact .local (.readDrain _ _ (not_not.mp ‹_›) ‹_›)
  · exact .effect (.readExpired _ _ (not_not.mp ‹_›) (Bool.of_not_eq_true ‹_›) ‹_›)
  · exact .local (.readWait _ _ (not_not.mp ‹_›) (Bool.of_not_eq_true ‹_›))
  · exact .effect (.readDrained _ _ _ _ ‹_›)
  · exact .effect (.readEof _ _ ‹_›)
  · exact .effect (.readData _ _ _ _ _ _ ‹_›)
  · exact .local (.readClosed _ _ _ _ ‹_›)
  · exact .local (.readChanged _ _ _ _ ‹_›)
  · exact .effect (.readTimeout _ _ _ _ ‹_›)
  · exact .effect (.readCopy _ _ _)

theorem stepDeadline_acts {p : DeadlinePc} (h : stepDeadline s p ch = some (s', pc')) :
    Acts s (.deadline p) s' pc' := by
  unfold stepDeadline at h
  dsimp only at h
  split at h <;> (try split at h) <;>
    simp only [reduceCtorEq, Option.some.injEq, Prod.mk.injEq] at h <;> obtain ⟨rfl, rfl⟩ := h
  · exact .effect (.deadlineLock _ _ (Bool.of_not_eq_true ‹_›))
  · exact .local (.deadlineRead _ _)
  · rename_i hu
    obtain ⟨rfl, hw, _⟩ := hu
    exact .effect (.deadlineUpdate _ _ hw)
  · exact .effect (.deadlineKeep _ _ _ _ ‹_›)

/-- Every step of a goroutine is a named action. -/
theorem next_cases {pc : Pc} (h : next s pc ch = some (s', pc')) : Acts s pc s' pc' := by
  cases pc with
  | idle =>
      cases ch with
      | call c => exact stepCall_acts h
      | _ => cases h
  | send p k => exact stepSend_acts h
  | signal p c k => exact stepSignal_acts h
  | close p k => exact stepClose_acts h
  | reader p => exact stepReader_acts h
  | heartbeat p => exact stepHeartbeat_acts h
  | flush p => exact stepFlush_acts h
  | dial p => exact stepDial_acts h
  | connClose p => exact stepConnClose_acts h
  | write p => exact stepWrite_acts h
  | read p => exact stepRead_acts h
  | deadline p => exact stepDeadline_acts h

end DahuaP2p.Tunnel
