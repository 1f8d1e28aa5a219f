import DahuaP2p.Threads
import Mathlib.Data.List.AList
import Mathlib.Data.Finset.Card

/-! # The session manager (`dahua.go`)

`SessionManager` shares tunnels between callers.  As for the tunnel, the manager is a shared memory
(`Shared`) on which goroutines run, and `next` gives the next atomic action of a goroutine.

* **The lock.** Every critical section of `m.mu` is one atomic action, enabled when the lock is
  free, except the one of `Acquire`: there the tunnels are asked one after the other whether they
  are closed and retired, and may close in between, so each question is an action of its own and
  `mu` is taken meanwhile.
* **Tunnels.** A client is its tunnel, numbered in the order of the handshakes.  `Tunnel.Close`
  runs under the tunnel's lock, which all questions to the tunnel take as well, so it is one atomic
  action; the `onClose` callback runs after it.  A tunnel may close (for whatever reason) and be
  retired at any time.
* **Timers.** An armed idle timer may fire at any time.  Its callback then waits for `m.mu`; to
  stop a timer that has fired has no effect.
* **Goroutines.** An idle goroutine may start any call, be the callback of an armed timer, or be the
  `go s.client.Close()` of a `Release`.
* **History.** Every `Acquire` that selects or creates a session gets a ticket; a ticket is held
  by the caller from the return of `Acquire` to the call of `Release`, and live until the critical
  section of that `Release`.  No action depends on the history.

The handshake of `ConnectWithConfig` may end either way; the fields of `Config` that only it reads
(timeout and logging) are left out. -/

namespace DahuaP2p.Manager

open Threads

/-- Identity of a client, its tunnel and its managed session. -/
abbrev ClientId := ℕ
/-- Identity of an idle timer. -/
abbrev TimerId := ℕ
/-- Identity of an `inflightConn`. -/
abbrev InflightId := ℕ
/-- Number of an `Acquire`. -/
abbrev Ticket := ℕ

/-! ### Configurations -/

/-- The settings of a `Config` that the manager uses. -/
structure Config where
  serial : String
  username : String
  password : String
  p2pPort : ℤ
  maxRealms : ℤ
deriving DecidableEq, Repr

structure SessionKey where
  serial : String
  username : String
  password : String
  p2pPort : ℤ
  maxRealms : ℤ
deriving DecidableEq, Repr

def defaultMaxRealmsPerTunnel : ℤ := 8

def sessionKeyFor (cfg : Config) : SessionKey where
  serial := cfg.serial
  username := cfg.username
  password := cfg.password
  p2pPort := cfg.p2pPort
  maxRealms := if cfg.maxRealms ≤ 0 then defaultMaxRealmsPerTunnel else cfg.maxRealms

theorem one_le_maxRealms (cfg : Config) : 1 ≤ (sessionKeyFor cfg).maxRealms := by
  simp only [sessionKeyFor, defaultMaxRealmsPerTunnel]
  split <;> omega

/-! ### Shared memory -/

/-- Errors of `Acquire`; `handshake inf` stands for whatever `ConnectWithConfig` reports in that
handshake. -/
inductive AcquireError where
  | sessionManagerClosed
  | fixedPortCapacity (port : ℤ)
  | handshake (inf : InflightId)
deriving DecidableEq, Repr

/-- A `managedSession`, with the key under which its callbacks look for it. -/
structure ManagedSession where
  key : SessionKey
  refCount : ℤ
  idleTimer : Option TimerId
  maxRealms : ℤ

/-- What the manager sees of a tunnel. -/
structure Tunnel where
  closed : Bool := false
  retired : Bool := false
  onClose : Bool := false

/-- `IsRetired`. -/
def Tunnel.isRetired (t : Tunnel) : Bool := t.retired || t.closed

/-- An `inflightConn`. -/
structure InflightConn where
  done : Bool := false
  err : Option AcquireError := none

/-- `m.sessions`. -/
abbrev SessionMap := AList fun _ : SessionKey => List ClientId

/-- `m.sessions[key]`; a missing key has the empty list. -/
def SessionMap.get (m : SessionMap) (key : SessionKey) : List ClientId := (m.lookup key).getD []

/-- `m.sessions[key] = list`, and a key with an empty list is deleted. -/
def SessionMap.store (m : SessionMap) (key : SessionKey) (list : List ClientId) : SessionMap :=
  if list = [] then m.erase key else m.insert key list

section maps
variable (m : SessionMap) (key key' : SessionKey) (list : List ClientId)

@[simp] theorem SessionMap.get_empty : SessionMap.get ∅ key = [] := rfl

@[simp] theorem SessionMap.get_store_self : (m.store key list).get key = list := by
  unfold SessionMap.store SessionMap.get
  split <;> simp [*]

theorem SessionMap.get_store_of_ne (h : key' ≠ key) :
    (m.store key list).get key' = m.get key' := by
  unfold SessionMap.store SessionMap.get
  split
  · rw [AList.lookup_erase_ne h]
  · rw [AList.lookup_insert_ne h]

theorem SessionMap.mem_keys_of_mem_get {c : ClientId} (h : c ∈ m.get key) : key ∈ m.keys := by
  rw [← AList.mem_keys, ← AList.lookup_isSome]
  unfold SessionMap.get at h
  cases hl : m.lookup key with
  | none =>
      rw [hl] at h
      cases h
  | some list => rfl

theorem SessionMap.get_store :
    (m.store key list).get key' = if key' = key then list else m.get key' := by
  split
  · next h => rw [h, get_store_self]
  · next h => exact m.get_store_of_ne key key' list h

end maps

/-- What has happened so far. -/
structure History where
  /-- How often an `Acquire` has selected or created the session. -/
  acquired : ClientId → ℕ := fun _ => 0
  /-- How often a `Release` of it has had its critical section. -/
  released : ClientId → ℕ := fun _ => 0
  tickets : ℕ := 0
  /-- The session of a ticket. -/
  owner : Ticket → ClientId := fun _ => 0
  /-- The serial of the configuration of that `Acquire`. -/
  serial : Ticket → String := fun _ => ""
  /-- The tickets of a session whose `Release` has not had its critical section. -/
  live : ClientId → Finset Ticket := fun _ => ∅
  /-- The tickets that callers hold. -/
  held : Finset Ticket := ∅
  /-- The value of `acquired` when the timer was armed. -/
  armedAt : TimerId → ℕ := fun _ => 0

/-- What stands for the key of a session or timer that is not made yet. -/
def blankKey : SessionKey where
  serial := ""
  username := ""
  password := ""
  p2pPort := 0
  maxRealms := 0

/-- What stands for a session that is not made yet. -/
def blankSession : ManagedSession where
  key := blankKey
  refCount := 0
  idleTimer := none
  maxRealms := 0

/-- The idle timers. -/
structure Timers where
  count : ℕ := 0
  /-- The timers that have neither fired nor been stopped. -/
  armed : Finset TimerId := ∅
  /-- The timers that have fired and whose callback waits for `m.mu`. -/
  waiting : Finset TimerId := ∅
  /-- The session whose timer it is, and the key under which the callback looks for it. -/
  owner : TimerId → ClientId := fun _ => 0
  key : TimerId → SessionKey := fun _ => blankKey

structure Shared where
  mu : Bool := false
  closed : Bool := false
  sessions : SessionMap := ∅
  inflight : AList fun _ : SessionKey => InflightId := ∅
  conns : InflightId → InflightConn := fun _ => {}
  connCount : ℕ := 0
  managed : ClientId → ManagedSession := fun _ => blankSession
  tunnels : ClientId → Tunnel := fun _ => {}
  clients : ℕ := 0
  timers : Timers := {}
  /-- The clients whose `go s.client.Close()` has not begun. -/
  spawned : List ClientId := []
  hist : History := {}

/-! ### Control states -/

/-- Who called `Client.Close`. -/
inductive CloseBy where
  | user
  /-- The callback of an idle timer. -/
  | timer (n : TimerId)
  /-- The goroutine that a `Release` started. -/
  | spawned
  /-- `CloseAll`, with the clients still to close. -/
  | all (rest : List ClientId)
  /-- An `Acquire` that could not commit its client. -/
  | unused (cfg : Config) (inf : InflightId) (e : AcquireError)
deriving DecidableEq, Repr

/-- Inside `Acquire`. -/
inductive AcquirePc where
  | lock
  /-- The first loop of `findAvailableSession`. -/
  | prune (todo live : List ClientId)
  /-- The second loop of `findAvailableSession`. -/
  | select (todo : List ClientId)
  | wait (inf : InflightId)
  | connect (inf : InflightId)
  | commit (inf : InflightId) (client : Option ClientId)
  | setOnClose (inf : InflightId) (c : ClientId) (n : Ticket)
  /-- `SetOnClose` has found the tunnel closed and calls the callback. -/
  | forget (inf : InflightId) (c : ClientId) (n : Ticket)
  | finish (inf : InflightId) (r : Except AcquireError (ClientId × Ticket))
  | ret (r : Except AcquireError (ClientId × Ticket))
deriving DecidableEq, Repr

/-- The control state of a goroutine. -/
inductive Pc where
  /-- Not started, or returned. -/
  | idle
  | acquire (cfg : Config) (p : AcquirePc)
  | release (serial : String) (c : ClientId) (n : Option Ticket)
  /-- The callback of an idle timer. -/
  | timer (n : TimerId)
  | closeAll
  /-- The last loop of `CloseAll`. -/
  | closing (todo : List ClientId)
  | close (c : ClientId) (k : CloseBy)
  /-- The `onClose` callback after that `Close`. -/
  | forget (c : ClientId) (k : CloseBy)
deriving DecidableEq, Repr

/-! ### Nondeterminism -/

/-- Calls that start on an idle goroutine. -/
inductive Call where
  | acquire (cfg : Config)
  /-- `Release`; `n` is the `Acquire` that the caller means. -/
  | release (serial : String) (c : ClientId) (n : Option Ticket)
  | closeAll
  | retire (c : ClientId)
  /-- The tunnel closes, for whatever reason. -/
  | close (c : ClientId)
  /-- The timer fires. -/
  | timer (n : TimerId)
  | spawned (c : ClientId)
deriving DecidableEq, Repr

/-- What the program leaves open: which call starts, in which order a map is iterated, how a
handshake ends. -/
inductive Choice where
  | go
  | call (c : Call)
  /-- The key at which a loop over a map stops. -/
  | key (k : SessionKey)
  /-- The order of a loop over a whole map. -/
  | keys (ks : List SessionKey)
  | handshake (ok : Bool)
deriving DecidableEq, Repr

end DahuaP2p.Manager
