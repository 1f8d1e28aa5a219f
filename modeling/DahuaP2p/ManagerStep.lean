import DahuaP2p.Manager

/-! # One step of the session manager

The updates of the memory, and the step functions of `Acquire`, `Release`, the callback of an idle
timer, `CloseAll`, and `Close` with its `onClose` callback.  `next` puts them together and `system`
is the interleaving of all goroutines. -/

namespace DahuaP2p.Manager

open Threads

/-! ### History -/

/-- An `Acquire` for `serial` has selected or created the session `c`. -/
def History.issue (h : History) (c : ClientId) (serial : String) : History :=
  { h with
    acquired := Function.update h.acquired c (h.acquired c + 1)
    tickets := h.tickets + 1
    owner := Function.update h.owner h.tickets c
    serial := Function.update h.serial h.tickets serial
    live := Function.update h.live c (insert h.tickets (h.live c)) }

/-- The critical section of a `Release` with that ticket. -/
def History.release (h : History) (c : ClientId) (n : Option Ticket) : History :=
  { h with
    released := Function.update h.released c (h.released c + 1)
    live := match n with
      | none => h.live
      | some n => Function.update h.live c ((h.live c).erase n) }

/-- The caller gives up the ticket. -/
def History.giveUp (h : History) : Option Ticket → History
  | none => h
  | some n => { h with held := h.held.erase n }

/-! ### Timers -/

/-- `Stop`, on a timer that may be nil. -/
def Timers.stop (ts : Timers) (o : Option TimerId) : Timers :=
  { ts with armed := ts.armed.filter fun n => o ≠ some n }

/-- `time.AfterFunc`. -/
def Timers.arm (ts : Timers) (c : ClientId) (key : SessionKey) : Timers :=
  { ts with
    count := ts.count + 1
    armed := insert ts.count ts.armed
    owner := Function.update ts.owner ts.count c
    key := Function.update ts.key ts.count key }

def Timers.fire (ts : Timers) (n : TimerId) : Timers :=
  { ts with armed := ts.armed.erase n, waiting := insert n ts.waiting }

/-! ### Memory -/

namespace Shared
variable (s : Shared)

def setManaged (c : ClientId) (ms : ManagedSession) : Shared :=
  { s with managed := Function.update s.managed c ms }

def setTunnel (c : ClientId) (t : Tunnel) : Shared :=
  { s with tunnels := Function.update s.tunnels c t }

def setConn (inf : InflightId) (i : InflightConn) : Shared :=
  { s with conns := Function.update s.conns inf i }

/-- Stop the idle timer of `c`. -/
def stopTimer (c : ClientId) : Shared :=
  { s with timers := s.timers.stop (s.managed c).idleTimer }

/-- Drop `c` from the list of `key` (`removeSession`). -/
def remove (key : SessionKey) (c : ClientId) : Shared :=
  { s with sessions := s.sessions.store key ((s.sessions.get key).erase c) }

def forget (c : ClientId) : Shared := (s.stopTimer c).remove (s.managed c).key c

/-- `Acquire` takes the session `c`. -/
def reserve (cfg : Config) (c : ClientId) : Shared :=
  { (s.stopTimer c).setManaged c
      { s.managed c with refCount := (s.managed c).refCount + 1, idleTimer := none } with
    mu := false
    hist := s.hist.issue c cfg.serial }

/-- A new `inflightConn` for `key`. -/
def beginHandshake (key : SessionKey) : Shared :=
  { s.setConn s.connCount {} with
    mu := false
    inflight := s.inflight.insert key s.connCount
    connCount := s.connCount + 1 }

/-- The handshake has made a client. -/
def connected : Shared := { s.setTunnel s.clients {} with clients := s.clients + 1 }

/-- The handshake of `key` has ended. -/
def endHandshake (key : SessionKey) (inf : InflightId) (e : Option AcquireError) : Shared :=
  { s.setConn inf { s.conns inf with err := e } with inflight := s.inflight.erase key }

/-- `Acquire` puts the new session `c` under `sessionKeyFor cfg`. -/
def commit (cfg : Config) (inf : InflightId) (c : ClientId) : Shared :=
  let key := sessionKeyFor cfg
  { (s.endHandshake key inf none).setManaged c
      { key := key, refCount := 1, idleTimer := none, maxRealms := key.maxRealms } with
    sessions := s.sessions.store key (s.sessions.get key ++ [c])
    hist := s.hist.issue c cfg.serial }

/-- `Release` leaves the session to other callers. -/
def releaseShared (c : ClientId) (n : Option Ticket) : Shared :=
  { s.setManaged c { s.managed c with refCount := (s.managed c).refCount - 1 } with
    hist := s.hist.release c n }

/-- The last `Release` of a retired tunnel. -/
def releaseRetired (key : SessionKey) (c : ClientId) (n : Option Ticket) : Shared :=
  { ((s.stopTimer c).setManaged c
      { s.managed c with refCount := 0, idleTimer := none }).remove key c with
    spawned := c :: s.spawned
    hist := s.hist.release c n }

/-- The last `Release` of a tunnel that is kept warm. -/
def releaseIdle (key : SessionKey) (c : ClientId) (n : Option Ticket) : Shared :=
  { s.setManaged c { s.managed c with refCount := 0, idleTimer := some s.timers.count } with
    timers := (s.timers.stop (s.managed c).idleTimer).arm c key
    hist := { s.hist.release c n with
      armedAt := Function.update s.hist.armedAt s.timers.count (s.hist.acquired c) } }

/-- The clients of the lists under `keys`. -/
def clientsOf (keys : List SessionKey) : List ClientId := keys.flatMap s.sessions.get

/-- The critical section of `CloseAll`, which finds the clients `all`. -/
def shutDown (all : List ClientId) : Shared :=
  { s with
    closed := true
    sessions := ∅
    timers := { s.timers with
      armed := s.timers.armed.filter fun n => ∀ c ∈ all, (s.managed c).idleTimer ≠ some n } }

/-- The callback of timer `n` has got the lock. -/
def callback (n : TimerId) : Shared :=
  { s with timers := { s.timers with waiting := s.timers.waiting.erase n } }

end Shared

/-! ### Step functions -/

/-- Where a goroutine goes on after `Close`. -/
def CloseBy.ret : CloseBy → Pc
  | .user | .timer _ | .spawned => .idle
  | .all rest => .closing rest
  | .unused cfg inf e => .acquire cfg (.finish inf (.error e))

/-- `SessionManager.Acquire`, with `findAvailableSession`. -/
def stepAcquire (s : Shared) (cfg : Config) : AcquirePc → Choice → Option (Shared × Pc)
  | .lock, .go =>
      if s.mu then none
      else if s.closed then some (s, .acquire cfg (.ret (.error .sessionManagerClosed)))
      else some ({ s with mu := true },
        .acquire cfg (.prune (s.sessions.get (sessionKeyFor cfg)) []))
  | .prune [] live, .go =>
      some ({ s with sessions := s.sessions.store (sessionKeyFor cfg) live },
        .acquire cfg (.select live))
  | .prune (c :: todo) live, .go =>
      if (s.tunnels c).closed then some (s.stopTimer c, .acquire cfg (.prune todo live))
      else some (s, .acquire cfg (.prune todo (live ++ [c])))
  | .select (c :: todo), .go =>
      if (s.tunnels c).isRetired then some (s, .acquire cfg (.select todo))
      else if (s.managed c).refCount < (s.managed c).maxRealms then
        some (s.reserve cfg c, .acquire cfg (.ret (.ok (c, s.hist.tickets))))
      else some (s, .acquire cfg (.select todo))
  | .select [], .go =>
      let key := sessionKeyFor cfg
      if key.p2pPort ≠ 0 ∧ s.sessions.get key ≠ [] then
        some ({ s with mu := false }, .acquire cfg (.ret (.error (.fixedPortCapacity key.p2pPort))))
      else
        match s.inflight.lookup key with
        | some inf => some ({ s with mu := false }, .acquire cfg (.wait inf))
        | none => some (s.beginHandshake key, .acquire cfg (.connect s.connCount))
  | .wait inf, .go =>
      if (s.conns inf).done then
        match (s.conns inf).err with
        | some e => some (s, .acquire cfg (.ret (.error e)))
        | none => some (s, .acquire cfg .lock)
      else none
  | .connect inf, .handshake true =>
      some (s.connected, .acquire cfg (.commit inf (some s.clients)))
  | .connect inf, .handshake false => some (s, .acquire cfg (.commit inf none))
  | .commit inf client, .go =>
      if s.mu then none
      else match client with
        | none => some (s.endHandshake (sessionKeyFor cfg) inf (some (.handshake inf)),
            .acquire cfg (.finish inf (.error (.handshake inf))))
        | some c =>
            if s.closed then
              some (s.endHandshake (sessionKeyFor cfg) inf (some .sessionManagerClosed),
                .close c (.unused cfg inf .sessionManagerClosed))
            else some (s.commit cfg inf c, .acquire cfg (.setOnClose inf c s.hist.tickets))
  | .setOnClose inf c n, .go =>
      if (s.tunnels c).closed then some (s, .acquire cfg (.forget inf c n))
      else some (s.setTunnel c { s.tunnels c with onClose := true },
        .acquire cfg (.finish inf (.ok (c, n))))
  | .forget inf c n, .go =>
      if s.mu then none else some (s.forget c, .acquire cfg (.finish inf (.ok (c, n))))
  | .finish inf r, .go =>
      some (s.setConn inf { s.conns inf with done := true }, .acquire cfg (.ret r))
  | .ret (.error _), .go => some (s, .idle)
  | .ret (.ok (_, n)), .go =>
      some ({ s with hist := { s.hist with held := insert n s.hist.held } }, .idle)
  | _, _ => none

/-- `Release` has found the session under `key`. -/
def releaseFound (s : Shared) (key : SessionKey) (c : ClientId) (n : Option Ticket) : Shared :=
  if (s.managed c).refCount - 1 > 0 then s.releaseShared c n
  else if (s.tunnels c).isRetired then s.releaseRetired key c n
  else s.releaseIdle key c n

/-- `SessionManager.Release`: a key of that serial has the client, or none has. -/
def stepRelease (s : Shared) (serial : String) (c : ClientId) (n : Option Ticket) :
    Choice → Option (Shared × Pc)
  | .key key =>
      if s.mu = false ∧ key.serial = serial ∧ c ∈ s.sessions.get key then
        some (releaseFound s key c n, .idle)
      else none
  | .go =>
      if s.mu = false ∧ ∀ key ∈ s.sessions.keys, key.serial = serial → c ∉ s.sessions.get key then
        some ({ s with hist := s.hist.release c n }, .idle)
      else none
  | _ => none

/-- The callback of an idle timer. -/
def stepTimer (s : Shared) (n : TimerId) : Choice → Option (Shared × Pc)
  | .go =>
      let c := s.timers.owner n
      let key := s.timers.key n
      if s.mu then none
      else if c ∈ s.sessions.get key ∧ ¬(s.managed c).refCount > 0 then
        some ((s.callback n).remove key c, .close c (.timer n))
      else some (s.callback n, .idle)
  | _ => none

/-- The critical section of `SessionManager.CloseAll`. -/
def stepCloseAll (s : Shared) : Choice → Option (Shared × Pc)
  | .keys ks =>
      if s.mu = false ∧ ks.Perm s.sessions.keys then
        some (s.shutDown (s.clientsOf ks), .closing (s.clientsOf ks))
      else none
  | _ => none

/-- `Client.Close`. -/
def stepClose (s : Shared) (c : ClientId) (k : CloseBy) : Choice → Option (Shared × Pc)
  | .go =>
      if (s.tunnels c).closed then some (s, k.ret)
      else some (s.setTunnel c { s.tunnels c with closed := true },
        if (s.tunnels c).onClose then .forget c k else k.ret)
  | _ => none

/-- An idle goroutine starts a call. -/
def startCall (s : Shared) : Call → Option (Shared × Pc)
  | .acquire cfg => some (s, .acquire cfg .lock)
  | .release serial c n => some ({ s with hist := s.hist.giveUp n }, .release serial c n)
  | .closeAll => some (s, .closeAll)
  | .retire c =>
      if c < s.clients then some (s.setTunnel c { s.tunnels c with retired := true }, .idle)
      else none
  | .close c => if c < s.clients then some (s, .close c .user) else none
  | .timer n =>
      if n ∈ s.timers.armed then some ({ s with timers := s.timers.fire n }, .timer n) else none
  | .spawned c =>
      if c ∈ s.spawned then some ({ s with spawned := s.spawned.erase c }, .close c .spawned)
      else none

/-- One atomic action of a goroutine. -/
def next (s : Shared) : Pc → Choice → Option (Shared × Pc)
  | .idle, .call c => startCall s c
  | .idle, _ => none
  | .acquire cfg p, ch => stepAcquire s cfg p ch
  | .release serial c n, ch => stepRelease s serial c n ch
  | .timer n, ch => stepTimer s n ch
  | .closeAll, ch => stepCloseAll s ch
  | .closing [], .go => some (s, .idle)
  | .closing (c :: rest), .go => some (s, .close c (.all rest))
  | .closing _, _ => none
  | .close c k, ch => stepClose s c k ch
  | .forget c k, .go => if s.mu then none else some (s.forget c, k.ret)
  | .forget _ _, _ => none

/-- `NewSessionManager`, with no goroutine running. -/
def start : World Shared Pc where
  shared := {}
  thr _ := .idle

/-- A session manager and its callers; there is no environment. -/
def system : System (World Shared Pc) (Label Choice Empty) :=
  interleave (· = start) next fun _ e => nomatch e

/-! ### Scripts -/

/-- Actions of goroutine `t`. -/
def acts (t : ℕ) (choices : List Choice) : List (Label Choice Empty) := choices.map (.thread t)

/-- `n` actions without a choice. -/
def gos (n : ℕ) : List Choice := List.replicate n .go

/-- `Acquire` up to the end of a successful handshake, with `n` sessions in the list. -/
def connectScript (t : ℕ) (cfg : Config) (n : ℕ) : List (Label Choice Empty) :=
  acts t ([.call (.acquire cfg)] ++ gos (2 * n + 3) ++ [.handshake true])

/-- A camera whose tunnels carry one stream each. -/
def singleRealm : Config where
  serial := "camera"
  username := "admin"
  password := "secret"
  p2pPort := 0
  maxRealms := 1

theorem reach_of_exec {ok : World Shared Pc → Label Choice Empty → Prop}
    [∀ w l, Decidable (ok w l)] {ls : List (Label Choice Empty)} {w : World Shared Pc}
    (h : system.exec ok start ls = some w) : system.Reach ok w :=
  System.Reach.exec (.init rfl) h

end DahuaP2p.Manager
