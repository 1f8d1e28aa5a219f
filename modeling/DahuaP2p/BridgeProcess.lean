import DahuaP2p.BridgeServe
import DahuaP2p.BridgeShutdown
import DahuaP2p.ManagerTunnel

/-! # The bridge as one process

`Life` has `run` with its context, its listener and its shutdown, and a tunnel that is closed in one
step.  `Serve` has the tunnel with all of its goroutines, and neither the context nor the
connections of the clients.  Here all of it runs together, from the moment `connect` has made the
tunnel.

* **The tunnel.** `run` calls `SetOnClose` and `Close`, a `handle` calls what it calls in `Serve`,
  and `Close` runs step by step as in `Tunnel`, whoever has called it.  The callback that
  `SetOnClose` installs cancels the context: the goroutine that closes the tunnel runs it, maybe the
  reader.
* **`handle`.** Where it asks `IsClosed` and `IsRetired` it waits for `t.mu`, which a `Close` may
  hold for ever.  `copyBoth` closes the client's connection before it closes the device.
* **Other goroutines.** The reader, the heartbeat, the ACK timers and the copying goroutines of
  `copyBoth`, which read and write.

`BridgeRefinement` relates this to `Serve`, to `Life` and so to `Tunnel`. -/

namespace DahuaP2p.Process

open Threads
open Life (ConnId MainPc)
open Tunnel (Time)

/-! ### The model -/

structure Shared where
  tunnel : Tunnel.Shared
  /-- What the tunnel says of itself, the clock and the place of `run` are not read here, see
  `Shared.view`. -/
  bridge : Life.Shared

inductive Pc where
  /-- A goroutine of the tunnel or of `copyBoth`, or one that does nothing. -/
  | tunnel (p : Tunnel.Pc)
  /-- `run`, inside a method of the tunnel if `p` is not `idle`. -/
  | run (m : MainPc) (p : Tunnel.Pc)
  /-- `handle` for connection `c`, as in `Serve`. -/
  | handle (c : ConnId) (n : Negotiation.Pc) (device : Option Tunnel.ConnId) (p : Tunnel.Pc)
  /-- `Client.Dial` after `ErrDialTimeout`. -/
  | dialTimeout (c : ConnId) (finished : Bool)
  /-- Behind `untrack`: `<-b.slots`, then `b.wg.Done`. -/
  | release (device : Option Tunnel.ConnId)
  | done
  | gone
deriving DecidableEq, Repr

inductive Choice where
  | go
  /-- A step of `run`, where `ok` is the outcome of its call. -/
  | main (ok : Bool)
  | start (c : ConnId)
  | control (ch : Negotiation.Choice)
  | tunnel (ch : Tunnel.Choice)
deriving DecidableEq, Repr

/-- The goroutine that waits for the context, a signal, and time. -/
inductive Env where
  | watcher
  | signal
  | tick (d : Time)
deriving DecidableEq, Repr

/-- What `Life` sees of the memory; `connect` has returned. -/
def Shared.view (s : Shared) : Life.Shared :=
  { s.bridge with
    negotiation := { s.bridge.negotiation with now := s.tunnel.now / 1000000 }
    connected := true
    closed := s.tunnel.view.closed
    retired := s.tunnel.view.retired
    onClose := s.tunnel.view.onClose }

def Shared.cancel (s : Shared) : Shared := { s with bridge.ctxDone := true }

/-- The goroutine runs the callback next. -/
def callsBack : Tunnel.Pc → Bool
  | .close (.callback true) _ => true
  | _ => false

/-- The memory after a step inside a method that leaves the tunnel as `tn`; the callback is
`cancel`. -/
def Shared.stepped (s : Shared) (p : Tunnel.Pc) (tn : Tunnel.Shared) : Shared :=
  if callsBack p then { s.cancel with tunnel := tn } else { s with tunnel := tn }

/-- A step inside a method of the tunnel; `k` says where the goroutine is after it. -/
def inTunnel (s : Shared) (p : Tunnel.Pc) (ch : Tunnel.Choice) (k : Tunnel.Pc → Pc) :
    Option (Shared × Pc) :=
  (Tunnel.next s.tunnel p ch).map fun r => (s.stepped p r.1, k r.2)

/-- `run` calls `b.client.Close` here. -/
def closes : MainPc → Bool
  | .closeUnused | .closeClient => true
  | _ => false

/-- Where `run` goes on after `b.client.Close`. -/
def resumption : MainPc → Life.Resume
  | .closeUnused => .quit
  | _ => .shutdown

def stepRun (limit : ℕ) (s : Shared) (m : MainPc) (p : Tunnel.Pc) (ch : Choice) :
    Option (Shared × Pc) :=
  match p, ch with
  | .idle, .main ok =>
      match m, ok with
      -- a `SetOnClose` that comes too late calls the callback itself
      | .setOnClose, true => inTunnel s .idle (.call .setOnClose) fun _ =>
          .run (if s.tunnel.life.closed then .callback .listen else .listen) .idle
      | m, ok =>
          if closes m then
            if ok then inTunnel s .idle (.call .close) (.run m) else none
          else
            (Life.stepMain limit { s.view with main := m } ok).map fun b =>
              ({ s with bridge := b }, .run b.main .idle)
  | .idle, _ => none
  | p, .tunnel ch => inTunnel s p ch fun p' => match p' with
      | .idle => .run (resumption m).pc .idle
      | p' => .run m p'
  | _, _ => none

/-- Where `handle` goes on when its call returns from `p`. -/
def resume (c : ConnId) (device : Option Tunnel.ConnId) (p : Tunnel.Pc) : Negotiation.Pc → Pc
  | .realm .dial f =>
      match p with
      | .dial (.ret (.ok d)) => .handle c (.realm .setUpstreamDeadline f) (some d) .idle
      | .dial (.ret (.error .dialTimeout)) => .dialTimeout c f
      | _ => .handle c (.realm (.once .dialError) f) device .idle
  | .realm .copyBoth f => .handle c (.realm .closeDevice f) device .idle
  | .realm .closeDevice f => .handle c (.realm (.once .deferred) f) device .idle
  | n => .handle c n device .idle

/-- `copyBoth` closes the connection of the client first. -/
def beforeCall (c : ConnId) (n : Negotiation.Pc) (s : Shared) : Shared :=
  match n with
  | .realm .copyBoth _ => { s with bridge := Life.closeConn s.bridge c }
  | _ => s

/-- `IsClosed` and `IsRetired` wait for `t.mu`. -/
def ready (s : Shared) : Negotiation.Pc → Bool
  | .noRealm => !s.tunnel.locks.mu
  | _ => true

def stepHandle (s : Shared) (c : ConnId) (n : Negotiation.Pc) (device : Option Tunnel.ConnId)
    (p : Tunnel.Pc) (ch : Choice) : Option (Shared × Pc) :=
  match p, ch with
  | .idle, .tunnel (.call k) =>
      if Serve.calls device n k then
        inTunnel (beforeCall c n s) .idle (.call k) (.handle c n device)
      else none
  | .idle, .control ch =>
      if Serve.mustCall n = false ∧ ready s n = true ∧ Life.allowed s.bridge c n ch = true then
        (Negotiation.next s.view.negotiation n ch).map fun r =>
          ({ s with bridge := Life.effect c n { s.view with negotiation := r.1 } },
            .handle c r.2 device .idle)
      else none
  -- `b.untrack`
  | .idle, .go =>
      match n with
      | .returned => some
          ({ s with bridge.connections := s.bridge.connections.filter (· ≠ c) }, .release device)
      | _ => none
  | .idle, _ => none
  | p, .tunnel ch => inTunnel s p ch fun p' => match p' with
      | .idle => resume c device p n
      | p' => .handle c n device p'
  | _, _ => none

/-- `Client.Dial` closes a silent tunnel and retires one that grants nothing. -/
def stepDialTimeout (s : Shared) (c : ConnId) (f : Bool) : Choice → Option (Shared × Pc)
  | .go =>
      if Serve.isResponsive s.tunnel Serve.deadTunnelSilence = false then
        inTunnel s .idle (.call .close) (.handle c (.realm .dial f) none)
      else if Serve.maxBindFailures ≤ s.tunnel.health.bindFailures then
        inTunnel s .idle (.call .retire) fun _ =>
          .handle c (.realm (.once .dialError) f) none .idle
      else some (s, .handle c (.realm (.once .dialError) f) none .idle)
  | _ => none

/-- The calls of the ACK timers and of the copying goroutines. -/
def background : Tunnel.Choice → Bool
  | .call (.flushACK _) | .call (.read _ _) | .call (.write _ _) => true
  | .call _ => false
  | _ => true

def stepTunnel (s : Shared) (p : Tunnel.Pc) : Choice → Option (Shared × Pc)
  | .tunnel ch => if background ch then inTunnel s p ch .tunnel else none
  | .start c =>
      match p with
      | .idle =>
          if c ∈ s.bridge.started then
            some ({ s with bridge.started := s.bridge.started.erase c },
              .handle c .idle none .idle)
          else none
      | _ => none
  | _ => none

/-- One action of a goroutine. -/
def next (limit : ℕ) (s : Shared) (pc : Pc) (ch : Choice) : Option (Shared × Pc) :=
  match pc with
  | .tunnel p => stepTunnel s p ch
  | .run m p => stepRun limit s m p ch
  | .handle c n device p => stepHandle s c n device p ch
  | .dialTimeout c f => stepDialTimeout s c f ch
  | .release _ => match ch with
      | .go =>
          if s.bridge.slots = 0 then none
          else some ({ s with bridge.slots := s.bridge.slots - 1 }, .done)
      | _ => none
  | .done => match ch with
      | .go => some ({ s with bridge.wg := s.bridge.wg - 1 }, .gone)
      | _ => none
  | .gone => none

def stepEnv (s : Shared) : Env → Option Shared
  | .watcher =>
      if s.bridge.watching && s.bridge.ctxDone then
        some { s with bridge.listenerClosed := true, bridge.watching := false }
      else none
  | .signal => some s.cancel
  | .tick d => some { s with tunnel := { s.tunnel with now := s.tunnel.now + d } }

/-- The reader, the heartbeat, `run`. -/
def startThreads : ℕ → Pc
  | 0 => .tunnel (.reader .top)
  | 1 => .tunnel (.heartbeat .loop)
  | 2 => .run .setOnClose .idle
  | _ => .tunnel .idle

/-- `connect` has returned. -/
def start (now : Time) (session : Ptcp.Session) : World Shared Pc :=
  ⟨⟨(Tunnel.start now session).shared, {}⟩, startThreads⟩

def Init (w : World Shared Pc) : Prop := ∃ now session, 0 < now ∧ w = start now session

/-- The bridge: all goroutines interleaved, signals and the clock. -/
def system (cfg : Serve.Config) : System (World Shared Pc) (Label Choice Env) :=
  interleave Init (next (Serve.connectionLimit cfg)) stepEnv

/-! ### The actions -/

/-- What a goroutine can do. -/
inductive Acts (limit : ℕ) (s : Shared) : Pc → Shared → Pc → Prop
  | tunnel (p p' : Tunnel.Pc) (ch : Tunnel.Choice) (tn : Tunnel.Shared) :
      background ch = true → Tunnel.next s.tunnel p ch = some (tn, p') →
      Acts limit s (.tunnel p) (s.stepped p tn) (.tunnel p')
  | start (c : ConnId) : c ∈ s.bridge.started →
      Acts limit s (.tunnel .idle) { s with bridge.started := s.bridge.started.erase c }
        (.handle c .idle none .idle)
  | setOnClose (p' : Tunnel.Pc) (tn : Tunnel.Shared) :
      Tunnel.next s.tunnel .idle (.call .setOnClose) = some (tn, p') →
      Acts limit s (.run .setOnClose .idle) { s with tunnel := tn }
        (.run (if s.tunnel.life.closed then .callback .listen else .listen) .idle)
  | close (m : MainPc) : closes m = true →
      Acts limit s (.run m .idle) s (.run m (.close .enter .user))
  | main (m : MainPc) (ok : Bool) (b : Life.Shared) : closes m = false → m ≠ .setOnClose →
      Life.stepMain limit { s.view with main := m } ok = some b →
      Acts limit s (.run m .idle) { s with bridge := b } (.run b.main .idle)
  | closing (m : MainPc) (p p' : Tunnel.Pc) (ch : Tunnel.Choice) (tn : Tunnel.Shared) :
      p ≠ .idle → p' ≠ .idle → Tunnel.next s.tunnel p ch = some (tn, p') →
      Acts limit s (.run m p) (s.stepped p tn) (.run m p')
  | closed (m : MainPc) (p : Tunnel.Pc) (ch : Tunnel.Choice) (tn : Tunnel.Shared) :
      p ≠ .idle → Tunnel.next s.tunnel p ch = some (tn, .idle) →
      Acts limit s (.run m p) (s.stepped p tn) (.run (resumption m).pc .idle)
  | call (c : ConnId) (n : Negotiation.Pc) (device : Option Tunnel.ConnId) (k : Tunnel.Call)
      (p' : Tunnel.Pc) (tn : Tunnel.Shared) : Serve.calls device n k = true →
      Tunnel.next s.tunnel .idle (.call k) = some (tn, p') →
      Acts limit s (.handle c n device .idle) { beforeCall c n s with tunnel := tn }
        (.handle c n device p')
  | inside (c : ConnId) (n : Negotiation.Pc) (device : Option Tunnel.ConnId) (p p' : Tunnel.Pc)
      (ch : Tunnel.Choice) (tn : Tunnel.Shared) : p ≠ .idle → p' ≠ .idle →
      Tunnel.next s.tunnel p ch = some (tn, p') →
      Acts limit s (.handle c n device p) (s.stepped p tn) (.handle c n device p')
  | ret (c : ConnId) (n : Negotiation.Pc) (device : Option Tunnel.ConnId) (p : Tunnel.Pc)
      (ch : Tunnel.Choice) (tn : Tunnel.Shared) : p ≠ .idle →
      Tunnel.next s.tunnel p ch = some (tn, .idle) →
      Acts limit s (.handle c n device p) (s.stepped p tn) (resume c device p n)
  | control (c : ConnId) (n n' : Negotiation.Pc) (device : Option Tunnel.ConnId)
      (ch : Negotiation.Choice) (g : Negotiation.Shared) : Serve.mustCall n = false →
      ready s n = true → Life.allowed s.bridge c n ch = true →
      Negotiation.next s.view.negotiation n ch = some (g, n') →
      Acts limit s (.handle c n device .idle)
        { s with bridge := Life.effect c n { s.view with negotiation := g } }
        (.handle c n' device .idle)
  | untrack (c : ConnId) (device : Option Tunnel.ConnId) :
      Acts limit s (.handle c .returned device .idle)
        { s with bridge.connections := s.bridge.connections.filter (· ≠ c) } (.release device)
  | silent (c : ConnId) (f : Bool) : Serve.isResponsive s.tunnel Serve.deadTunnelSilence = false →
      Acts limit s (.dialTimeout c f) s (.handle c (.realm .dial f) none (.close .enter .user))
  | retire (c : ConnId) (f : Bool) (tn : Tunnel.Shared) :
      Serve.isResponsive s.tunnel Serve.deadTunnelSilence ≠ false →
      Serve.maxBindFailures ≤ s.tunnel.health.bindFailures →
      Tunnel.next s.tunnel .idle (.call .retire) = some (tn, .idle) →
      Acts limit s (.dialTimeout c f) { s with tunnel := tn }
        (.handle c (.realm (.once .dialError) f) none .idle)
  | giveUp (c : ConnId) (f : Bool) :
      Serve.isResponsive s.tunnel Serve.deadTunnelSilence ≠ false →
      ¬ Serve.maxBindFailures ≤ s.tunnel.health.bindFailures →
      Acts limit s (.dialTimeout c f) s (.handle c (.realm (.once .dialError) f) none .idle)
  | release (device : Option Tunnel.ConnId) : s.bridge.slots ≠ 0 →
      Acts limit s (.release device) { s with bridge.slots := s.bridge.slots - 1 } .done
  | done : Acts limit s .done { s with bridge.wg := s.bridge.wg - 1 } .gone

section acts
variable {limit : ℕ} {s s' : Shared} {pc pc' : Pc} {ch : Choice}

theorem inTunnel_eq_some {p : Tunnel.Pc} {c : Tunnel.Choice} {k : Tunnel.Pc → Pc} :
    inTunnel s p c k = some (s', pc') ↔
      ∃ tn p', Tunnel.next s.tunnel p c = some (tn, p') ∧ s' = s.stepped p tn ∧ pc' = k p' := by
  simp only [inTunnel, Option.map_eq_some_iff, Prod.exists, Prod.mk.injEq]
  constructor
  · rintro ⟨tn, p', hn, rfl, rfl⟩
    exact ⟨tn, p', hn, rfl, rfl⟩
  · rintro ⟨tn, p', hn, rfl, rfl⟩
    exact ⟨tn, p', hn, rfl, rfl⟩

theorem stepTunnel_acts {p : Tunnel.Pc} (h : stepTunnel s p ch = some (s', pc')) :
    Acts limit s (.tunnel p) s' pc' := by
  cases ch with
  | tunnel c =>
      obtain ⟨hback, h⟩ := Option.ite_none_right_eq_some.mp h
      obtain ⟨tn, p', hn, rfl, rfl⟩ := inTunnel_eq_some.mp h
      exact .tunnel p p' c tn hback hn
  | start c =>
      cases p with
      | idle =>
          obtain ⟨hc, h⟩ := Option.ite_none_right_eq_some.mp h
          cases h
          exact .start c hc
      | _ => cases h
  | _ => cases h

/-- `run` does something outside of the tunnel's methods, or calls one. -/
theorem stepRun_idle {m : MainPc} {ok : Bool}
    (h : stepRun limit s m .idle (.main ok) = some (s', pc')) :
    Acts limit s (.run m .idle) s' pc' := by
  simp only [stepRun] at h
  split at h
  · obtain ⟨tn, p', hn, rfl, rfl⟩ := inTunnel_eq_some.mp h
    exact .setOnClose p' tn hn
  · next hset =>
      split at h
      · next hcloses =>
          obtain ⟨_, h⟩ := Option.ite_none_right_eq_some.mp h
          obtain ⟨tn, p', hn, rfl, rfl⟩ := inTunnel_eq_some.mp h
          cases hn
          exact .close m hcloses
      · next hcloses =>
          obtain ⟨b, hb, he⟩ := Option.map_eq_some_iff.mp h
          cases he
          refine .main m ok b (Bool.of_not_eq_true hcloses) ?_ hb
          rintro rfl
          cases ok with
          | true => exact hset rfl rfl
          | false => cases hb

/-- The step is one inside a method. -/
theorem stepRun_acts {m : MainPc} {p : Tunnel.Pc} (h : stepRun limit s m p ch = some (s', pc')) :
    Acts limit s (.run m p) s' pc' := by
  by_cases hidle : p = .idle
  · subst hidle
    cases ch with
    | main ok => exact stepRun_idle h
    | _ => cases h
  · have hin : ∃ c, ch = .tunnel c ∧ inTunnel s p c (fun p' => match p' with
        | .idle => .run (resumption m).pc .idle
        | p' => .run m p') = some (s', pc') := by
      unfold stepRun at h
      split at h
      · exact absurd rfl hidle
      · exact absurd rfl hidle
      · exact ⟨_, rfl, h⟩
      · cases h
    obtain ⟨c, rfl, hc⟩ := hin
    obtain ⟨tn, p', hn, rfl, rfl⟩ := inTunnel_eq_some.mp hc
    split
    · exact .closed m p c tn hidle hn
    · next hne => exact .closing m p p' c tn hidle hne hn

theorem beforeCall_tunnel (c : ConnId) (n : Negotiation.Pc) (s : Shared) :
    (beforeCall c n s).tunnel = s.tunnel := by
  unfold beforeCall
  split <;> rfl

theorem stepHandle_acts {c : ConnId} {n : Negotiation.Pc} {device : Option Tunnel.ConnId}
    {p : Tunnel.Pc} (h : stepHandle s c n device p ch = some (s', pc')) :
    Acts limit s (.handle c n device p) s' pc' := by
  by_cases hidle : p = .idle
  · subst hidle
    cases ch with
    | go =>
        cases n with
        | returned =>
            cases h
            exact .untrack c device
        | _ => cases h
    | main | start => cases h
    | tunnel k =>
        cases k with
        | call k =>
            obtain ⟨hcalls, h⟩ := Option.ite_none_right_eq_some.mp h
            obtain ⟨tn, p', hn, rfl, rfl⟩ := inTunnel_eq_some.mp h
            rw [beforeCall_tunnel] at hn
            exact .call c n device k p' tn hcalls hn
        | _ => cases h
    | control k =>
        obtain ⟨⟨hmust, hready, hallowed⟩, h⟩ := Option.ite_none_right_eq_some.mp h
        obtain ⟨⟨g, n'⟩, hn, he⟩ := Option.map_eq_some_iff.mp h
        cases he
        exact .control c n n' device k g hmust hready hallowed hn
  · have hin : ∃ k, ch = .tunnel k ∧ inTunnel s p k (fun p' => match p' with
        | .idle => resume c device p n
        | p' => .handle c n device p') = some (s', pc') := by
      unfold stepHandle at h
      split at h
      · exact absurd rfl hidle
      · exact absurd rfl hidle
      · exact absurd rfl hidle
      · exact absurd rfl hidle
      · exact ⟨_, rfl, h⟩
      · cases h
    obtain ⟨k, rfl, hk⟩ := hin
    obtain ⟨tn, p', hn, rfl, rfl⟩ := inTunnel_eq_some.mp hk
    split
    · exact .ret c n device p k tn hidle hn
    · next hne => exact .inside c n device p p' k tn hidle hne hn

theorem stepDialTimeout_acts {c : ConnId} {f : Bool}
    (h : stepDialTimeout s c f ch = some (s', pc')) : Acts limit s (.dialTimeout c f) s' pc' := by
  cases ch with
  | go =>
      simp only [stepDialTimeout] at h
      split at h
      · next hsilent =>
          obtain ⟨tn, p', hn, rfl, rfl⟩ := inTunnel_eq_some.mp h
          cases hn
          exact .silent c f hsilent
      · next hheard =>
          split at h
          · next hfailures =>
              obtain ⟨tn, p', hn, rfl, rfl⟩ := inTunnel_eq_some.mp h
              cases Serve.retire_idle hn
              exact .retire c f tn hheard hfailures hn
          · next hfew =>
              cases h
              exact .giveUp c f hheard hfew
  | _ => cases h

/-- **Every step is one of these actions.** -/
theorem next_acts (h : next limit s pc ch = some (s', pc')) : Acts limit s pc s' pc' := by
  cases pc with
  | tunnel p => exact stepTunnel_acts h
  | run m p => exact stepRun_acts h
  | handle c n device p => exact stepHandle_acts h
  | dialTimeout c f => exact stepDialTimeout_acts h
  | release device =>
      cases ch with
      | go =>
          obtain ⟨hslots, h⟩ := Option.ite_none_left_eq_some.mp h
          cases h
          exact .release device hslots
      | _ => cases h
  | done =>
      cases ch with
      | go =>
          cases h
          exact .done
      | _ => cases h
  | gone => cases h

end acts

variable {limit : ℕ} {cfg : Serve.Config} {s s' : Shared} {pc pc' : Pc} {w : World Shared Pc}

/-! ### Invariants -/

theorem forall_startThreads {P : ℕ → Pc → Prop} (hreader : P 0 (.tunnel (.reader .top)))
    (hheartbeat : P 1 (.tunnel (.heartbeat .loop))) (hrun : P 2 (.run .setOnClose .idle))
    (hidle : ∀ t, P (t + 3) (.tunnel .idle)) (t : ℕ) : P t (startThreads t) :=
  match t with
  | 0 => hreader
  | 1 => hheartbeat
  | 2 => hrun
  | t + 3 => hidle t

/-- **Invariant rule** for what holds of each goroutine by itself. -/
theorem forall_threads {P : ℕ → Pc → Prop} (hstart : ∀ t, P t (startThreads t))
    (hact : ∀ s t pc s' pc', P t pc → Acts (Serve.connectionLimit cfg) s pc s' pc' → P t pc')
    (h : (system cfg).Reachable w) (t : ℕ) : P t (w.thr t) := by
  revert t
  refine interleave_invariant (I := fun w => ∀ t, P t (w.thr t)) ?_ ?_ ?_ h
  · rintro w ⟨now, session, _, rfl⟩
    exact hstart
  · intro w t ch s pc _ hi _ hn
    exact forall_update (hact _ t _ _ _ (hi t) (next_acts hn)) fun u _ => hi u
  · intro w e s _ hi _ _
    exact hi

def Pc.isRun : Pc → Bool
  | .run _ _ => true
  | _ => false

theorem resume_cases (c : ConnId) (device : Option Tunnel.ConnId) (p : Tunnel.Pc)
    (n : Negotiation.Pc) : (∃ n' d, resume c device p n = .handle c n' d .idle) ∨
      ∃ f, resume c device p n = .dialTimeout c f := by
  unfold resume
  split
  · split
    · exact .inl ⟨_, _, rfl⟩
    · exact .inr ⟨_, rfl⟩
    · exact .inl ⟨_, _, rfl⟩
  all_goals exact .inl ⟨_, _, rfl⟩

theorem Acts.isRun (h : Acts limit s pc s' pc') : pc'.isRun = pc.isRun := by
  cases h with
  | ret c n device p =>
      rcases resume_cases c device p n with ⟨n', d, heq⟩ | ⟨f, heq⟩ <;> rw [heq] <;> rfl
  | _ => rfl

/-- Goroutine 2 is `run`. -/
theorem isRun_iff (h : (system cfg).Reachable w) (t : ℕ) : (w.thr t).isRun = true ↔ t = 2 := by
  refine forall_threads (P := fun t pc => pc.isRun = true ↔ t = 2) ?_ ?_ h t
  · refine forall_startThreads (P := fun t pc => pc.isRun = true ↔ t = 2) ?_ ?_ ?_ fun t => ?_
    · simp [Pc.isRun]
    · simp [Pc.isRun]
    · simp [Pc.isRun]
    · simp [Pc.isRun]
  · intro s t pc s' pc' hi ha
    rw [ha.isRun]
    exact hi

theorem exists_run (h : (system cfg).Reachable w) : ∃ m p, w.thr 2 = .run m p := by
  have hrun := (isRun_iff h 2).mpr rfl
  cases hpc : w.thr 2 with
  | run m p => exact ⟨m, p, rfl⟩
  | _ =>
      rw [hpc] at hrun
      cases hrun

/-- `run` is in no method but `Close`, and a `handle` calls `Close` in `Client.Dial` only. -/
def Pc.Fits : Pc → Prop
  | .run m p => p = .idle ∨ closes m = true ∧ p.closeCall = some .user
  | .handle _ n _ p => p.role = .user ∧ (p.closeCall ≠ none → ∃ f, n = .realm .dial f)
  | _ => True

section methods
variable {tn tn' : Tunnel.Shared} {p p' : Tunnel.Pc} {ch : Tunnel.Choice}

/-- A goroutine inside `Close` stays there until it returns. -/
theorem closeCall_step (h : Tunnel.next tn p ch = some (tn', p'))
    (hp : p.closeCall = some .user) (hidle : p' ≠ .idle) : p'.closeCall = some .user := by
  have hact := (Tunnel.next_cases h).closeAct
  cases hact with
  | keep _ hcall => exact hcall.trans hp
  | retire | setOnClose => exact absurd rfl hidle
  | enter _ _ hnone =>
      rw [hp] at hnone
      cases hnone
  | finish => exact hp
  | again j | callback j =>
      cases hp
      exact absurd rfl hidle

/-- A goroutine that is not one of the tunnel's own does not get into `Close` by itself. -/
theorem closeCall_of_user (h : Tunnel.next tn p ch = some (tn', p')) (hrole : p.role = .user)
    (hidle : p ≠ .idle) (hidle' : p' ≠ .idle) :
    p'.role = .user ∧ (p'.closeCall ≠ none → p.closeCall ≠ none) := by
  have hacts := Tunnel.next_cases h
  have hrole' : p'.role = .user := ((hacts.role hidle).resolve_left hidle').trans hrole
  refine ⟨hrole', ?_⟩
  have hact := hacts.closeAct
  cases hact with
  | keep _ hcall =>
      rw [hcall]
      exact id
  | retire | setOnClose => exact absurd rfl hidle
  | enter k _ _ hk => exact absurd (hk hrole') hidle
  | finish => exact fun _ => Option.some_ne_none _
  | again | callback => exact fun _ => Option.some_ne_none _

/-- What `handle` calls directly is not `Close`. -/
theorem calls_user {device : Option Tunnel.ConnId} {n : Negotiation.Pc} {k : Tunnel.Call}
    (hcalls : Serve.calls device n k = true)
    (h : Tunnel.next tn .idle (.call k) = some (tn', p')) :
    p'.role = .user ∧ p'.closeCall = none ∧ tn'.view = tn.view := by
  unfold Serve.calls at hcalls
  split at hcalls
  · cases h
    exact ⟨rfl, rfl, rfl⟩
  all_goals
    first
    | cases hcalls
    | (obtain ⟨_, he⟩ := Option.ite_none_right_eq_some.mp h
       cases he
       exact ⟨rfl, rfl, rfl⟩)

end methods

theorem Acts.fits (h : Acts limit s pc s' pc') (hp : pc.Fits) : pc'.Fits := by
  cases h with
  | close m hcloses => exact .inr ⟨hcloses, rfl⟩
  | setOnClose | main | closed => exact .inl rfl
  | closing m p p' ch tn hidle hidle' hn =>
      obtain ⟨hcloses, hcall⟩ := hp.resolve_left hidle
      exact .inr ⟨hcloses, closeCall_step hn hcall hidle'⟩
  | call c n device k p' tn hcalls hn =>
      obtain ⟨hrole, hnone, _⟩ := calls_user hcalls hn
      exact ⟨hrole, fun hne => absurd hnone hne⟩
  | inside c n device p p' ch tn hidle hidle' hn =>
      obtain ⟨hrole, hcall⟩ := closeCall_of_user hn hp.1 hidle hidle'
      exact ⟨hrole, fun hne => hp.2 (hcall hne)⟩
  | ret c n device p =>
      rcases resume_cases c device p n with ⟨n', d, heq⟩ | ⟨f, heq⟩
      · rw [heq]
        exact ⟨rfl, fun hne => absurd rfl hne⟩
      · rw [heq]
        trivial
  | start | control | retire | giveUp => exact ⟨rfl, fun hne => absurd rfl hne⟩
  | silent c f => exact ⟨rfl, fun _ => ⟨f, rfl⟩⟩
  | tunnel | untrack | release | done => trivial

theorem fits (h : (system cfg).Reachable w) (t : ℕ) : (w.thr t).Fits := by
  refine forall_threads (P := fun _ pc => pc.Fits) ?_ (fun _ _ _ _ _ hi ha => ha.fits hi) h t
  exact forall_startThreads trivial trivial (.inl rfl) fun _ => trivial

end DahuaP2p.Process
