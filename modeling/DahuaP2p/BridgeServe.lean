import DahuaP2p.Negotiation
import DahuaP2p.TunnelListing

/-! # The bridge over its tunnel (`bridge.serve`, `bridge.handle`, `Client.Dial`)

The whole process: the accept loop, the `handle` goroutines it starts, and the goroutines of the
tunnel they share.

* **Slots.** `serve` puts a token into the channel `slots` for every connection it accepts, or
  rejects the connection if the channel is full, and starts a goroutine that takes the token out
  again after `handle` has returned.  Between the two the goroutine is one of those that `serve`
  has `started`, or a thread that runs `handle`.
* **`handle`.** Its control flow is that of `Negotiation`.  What it does with the tunnel it does
  by calls, which run step by step as in `Tunnel`; a `handle` inside a call carries the control
  state of the call.  `Dial` and `Conn.Close` are called where the source calls them, and the
  outcome of `Dial` decides how `handle` goes on.  `Read`, `Write` and the deadline setters are
  called any number of times where the source uses the device; how the proxy takes their results
  is a choice, as in `Negotiation`.
* **Other goroutines.** The reader, the heartbeat, the ACK timers, the copying goroutines of
  `copyBoth` and the shutdown use the tunnel in any way, except that they neither dial nor close
  a `Conn`.

`tunnelOf` forgets everything but the tunnel; every run of the bridge is a run of the tunnel
(`tunnelOf_reachable`), so what is proved about the tunnel holds inside the bridge. -/

namespace DahuaP2p.Serve

open Threads
open Tunnel (ConnId Time)

/-! ### The model -/

/-- The limits of a configuration, as `loadConfig` accepts them. -/
structure Config where
  maxConns : ℕ
  maxRealms : ℕ
  maxConns_pos : 1 ≤ maxConns
  maxRealms_pos : 1 ≤ maxRealms

def connectionLimit (cfg : Config) : ℕ :=
  if cfg.maxConns < cfg.maxRealms then cfg.maxConns else cfg.maxRealms

theorem connectionLimit_eq (cfg : Config) :
    connectionLimit cfg = min cfg.maxConns cfg.maxRealms := by
  unfold connectionLimit
  split <;> omega

/-- 12 seconds. -/
def deadTunnelSilence : Time := 12000000000

def maxBindFailures : ℕ := 2

/-- `IsResponsive`. -/
def isResponsive (s : Tunnel.Shared) (within : Time) : Bool :=
  s.health.lastAckTime ≠ 0 && s.now - s.health.lastAckTime < within

structure Shared where
  tunnel : Tunnel.Shared
  negotiation : Negotiation.Shared
  /-- Tokens in the channel `b.slots`. -/
  slots : ℕ := 0
  /-- Goroutines that `serve` has started and that have not run yet. -/
  started : ℕ := 0
  /-- The counter of `b.wg`. -/
  wg : ℕ := 0

/-- Inside `serve` and `shutdown`. -/
inductive ServePc where
  | accept
  | select
  | shutdown
  /-- Inside `b.client.Close`. -/
  | closing (p : Tunnel.Pc)
  | wait
  | returned
deriving DecidableEq, Repr

inductive Pc where
  /-- A goroutine of the tunnel, or one that does nothing. -/
  | tunnel (p : Tunnel.Pc)
  | serve (p : ServePc)
  /-- `handle` with its device once it has one, and inside a method of the tunnel if `p` is not
  `idle`. -/
  | handle (n : Negotiation.Pc) (device : Option ConnId) (p : Tunnel.Pc)
  /-- `Client.Dial` after `ErrDialTimeout`. -/
  | dialTimeout (finished : Bool)
  /-- The slot is released. -/
  | released
deriving DecidableEq, Repr

inductive Choice where
  | go
  | fail
  | tunnel (ch : Tunnel.Choice)
  | control (ch : Negotiation.Choice)
deriving DecidableEq, Repr

/-- A step inside a method of the tunnel; `k` says where the goroutine is after it. -/
def inTunnel (s : Shared) (p : Tunnel.Pc) (ch : Tunnel.Choice) (k : Tunnel.Pc → Pc) :
    Option (Shared × Pc) :=
  (Tunnel.next s.tunnel p ch).map fun r => ({ s with tunnel := r.1 }, k r.2)

/-- The methods of the tunnel that `handle` calls from here. -/
def calls (device : Option ConnId) : Negotiation.Pc → Tunnel.Call → Bool
  | .realm .dial _, .dial _ => true
  | .realm .setDeviceDeadline _, .setDeadline c _ => device = some c
  | .realm .clearDeviceDeadline _, .setDeadline c _ => device = some c
  | .realm .writeRequest _, .write c _ => device = some c
  | .realm .response _, .read c _ => device = some c
  | .realm .request _, .write c _ => device = some c
  | .realm .copyBoth _, .connClose c => device = some c
  | .realm .closeDevice _, .connClose c => device = some c
  | _, _ => false

/-- `handle` goes on from here only after a call. -/
def mustCall : Negotiation.Pc → Bool
  | .realm .dial _ => true
  | .realm .copyBoth _ => true
  | .realm .closeDevice _ => true
  | _ => false

/-- Where `handle` goes on when its call returns from `p`. -/
def resume (device : Option ConnId) (p : Tunnel.Pc) : Negotiation.Pc → Pc
  | .realm .dial f =>
      match p with
      | .dial (.ret (.ok c)) => .handle (.realm .setUpstreamDeadline f) (some c) .idle
      | .dial (.ret (.error .dialTimeout)) => .dialTimeout f
      | _ => .handle (.realm (.once .dialError) f) device .idle
  | .realm .copyBoth f => .handle (.realm .closeDevice f) device .idle
  | .realm .closeDevice f => .handle (.realm (.once .deferred) f) device .idle
  | n => .handle n device .idle

def stepHandle (s : Shared) (n : Negotiation.Pc) (device : Option ConnId) (p : Tunnel.Pc)
    (ch : Choice) : Option (Shared × Pc) :=
  match p, ch with
  | .idle, .tunnel (.call k) =>
      if calls device n k then inTunnel s .idle (.call k) (.handle n device) else none
  | .idle, .control c =>
      if mustCall n then none
      else (Negotiation.next s.negotiation n c).map fun r =>
        ({ s with negotiation := r.1 }, .handle r.2 device .idle)
  -- the deferred function of the goroutine: `untrack`, then `<-b.slots`
  | .idle, .go =>
      match n with
      | .returned => if s.slots = 0 then none else some ({ s with slots := s.slots - 1 }, .released)
      | _ => none
  | .idle, _ => none
  | p, .tunnel ch => inTunnel s p ch fun p' => match p' with
      | .idle => resume device p n
      | p' => .handle n device p'
  | _, _ => none

/-- `Client.Dial` closes a silent tunnel and retires one that grants nothing. -/
def stepDialTimeout (s : Shared) (f : Bool) : Choice → Option (Shared × Pc)
  | .go =>
      if isResponsive s.tunnel deadTunnelSilence = false then
        inTunnel s .idle (.call .close) (.handle (.realm .dial f) none)
      else if maxBindFailures ≤ s.tunnel.health.bindFailures then
        inTunnel s .idle (.call .retire) fun _ => .handle (.realm (.once .dialError) f) none .idle
      else some (s, .handle (.realm (.once .dialError) f) none .idle)
  | _ => none

def stepServe (cfg : Config) (s : Shared) (p : ServePc) (ch : Choice) : Option (Shared × Pc) :=
  match p, ch with
  | .accept, .go => some (s, .serve .select)
  | .accept, .fail => some (s, .serve .shutdown)
  | .select, .go =>
      if s.slots < connectionLimit cfg then
        some ({ s with slots := s.slots + 1, started := s.started + 1, wg := s.wg + 1 },
          .serve .accept)
      else some (s, .serve .accept)
  | .shutdown, .go => inTunnel s .idle (.call .close) fun p' => .serve (.closing p')
  | .closing p, .tunnel ch => inTunnel s p ch fun p' => match p' with
      | .idle => .serve .wait
      | p' => .serve (.closing p')
  | .wait, .go => if s.wg = 0 then some (s, .serve .returned) else none
  | _, _ => none

/-- The call is one that only `handle` makes. -/
def reserved : Tunnel.Choice → Bool
  | .call (.dial _) => true
  | .call (.connClose _) => true
  | _ => false

def stepTunnel (s : Shared) (p : Tunnel.Pc) : Choice → Option (Shared × Pc)
  | .tunnel ch => if reserved ch then none else inTunnel s p ch .tunnel
  | .go =>
      match p with
      | .idle =>
          if s.started = 0 then none
          else some ({ s with started := s.started - 1 }, .handle .idle none .idle)
      | _ => none
  | _ => none

/-- One action of a goroutine. -/
def next (cfg : Config) (s : Shared) (pc : Pc) (ch : Choice) : Option (Shared × Pc) :=
  match pc with
  | .tunnel p => stepTunnel s p ch
  | .serve p => stepServe cfg s p ch
  | .handle n device p => stepHandle s n device p ch
  | .dialTimeout f => stepDialTimeout s f ch
  | .released => match ch with
      | .go => some ({ s with wg := s.wg - 1 }, .tunnel .idle)
      | _ => none

/-- Time passes, for the tunnel in nanoseconds and for the negotiations in milliseconds. -/
def passTime (s : Shared) (d : Time) : Option Shared :=
  some { s with
    tunnel := { s.tunnel with now := s.tunnel.now + d }
    negotiation := { s.negotiation with now := (s.tunnel.now + d) / 1000000 } }

/-- The reader, the heartbeat, the accept loop. -/
def startThreads : ℕ → Pc
  | 0 => .tunnel (.reader .top)
  | 1 => .tunnel (.heartbeat .loop)
  | 2 => .serve .accept
  | _ => .tunnel .idle

/-- `serve` begins, on a new tunnel. -/
def start (now : Time) (session : Ptcp.Session) : World Shared Pc where
  shared :=
    { tunnel := (Tunnel.start now session).shared
      negotiation := { token := false, lastNegotiate := none, now := now / 1000000 } }
  thr := startThreads

def Init (w : World Shared Pc) : Prop := ∃ now session, 0 < now ∧ w = start now session

/-- The bridge: all goroutines interleaved, and the clock. -/
def system (cfg : Config) : System (World Shared Pc) (Label Choice Time) :=
  interleave Init (next cfg) passTime

/-! ### The actions -/

/-- What a goroutine can do. -/
inductive Acts (cfg : Config) (s : Shared) : Pc → Shared → Pc → Prop
  | tunnel (p p' : Tunnel.Pc) (ch : Tunnel.Choice) (tn : Tunnel.Shared) :
      reserved ch = false → Tunnel.next s.tunnel p ch = some (tn, p') →
      Acts cfg s (.tunnel p) { s with tunnel := tn } (.tunnel p')
  | run : s.started ≠ 0 →
      Acts cfg s (.tunnel .idle) { s with started := s.started - 1 } (.handle .idle none .idle)
  | accept : Acts cfg s (.serve .accept) s (.serve .select)
  | acceptFail : Acts cfg s (.serve .accept) s (.serve .shutdown)
  | take : s.slots < connectionLimit cfg →
      Acts cfg s (.serve .select)
        { s with slots := s.slots + 1, started := s.started + 1, wg := s.wg + 1 } (.serve .accept)
  | reject : Acts cfg s (.serve .select) s (.serve .accept)
  | shutdown (p' : Tunnel.Pc) (tn : Tunnel.Shared) :
      Tunnel.next s.tunnel .idle (.call .close) = some (tn, p') →
      Acts cfg s (.serve .shutdown) { s with tunnel := tn } (.serve (.closing p'))
  | closing (p p' : Tunnel.Pc) (ch : Tunnel.Choice) (tn : Tunnel.Shared) : p' ≠ .idle →
      Tunnel.next s.tunnel p ch = some (tn, p') →
      Acts cfg s (.serve (.closing p)) { s with tunnel := tn } (.serve (.closing p'))
  | closed (p : Tunnel.Pc) (ch : Tunnel.Choice) (tn : Tunnel.Shared) :
      Tunnel.next s.tunnel p ch = some (tn, .idle) →
      Acts cfg s (.serve (.closing p)) { s with tunnel := tn } (.serve .wait)
  | wait : s.wg = 0 → Acts cfg s (.serve .wait) s (.serve .returned)
  | call (n : Negotiation.Pc) (device : Option ConnId) (k : Tunnel.Call) (p' : Tunnel.Pc)
      (tn : Tunnel.Shared) : calls device n k = true →
      Tunnel.next s.tunnel .idle (.call k) = some (tn, p') →
      Acts cfg s (.handle n device .idle) { s with tunnel := tn } (.handle n device p')
  | inside (n : Negotiation.Pc) (device : Option ConnId) (p p' : Tunnel.Pc) (ch : Tunnel.Choice)
      (tn : Tunnel.Shared) : p ≠ .idle → p' ≠ .idle → Tunnel.next s.tunnel p ch = some (tn, p') →
      Acts cfg s (.handle n device p) { s with tunnel := tn } (.handle n device p')
  | ret (n : Negotiation.Pc) (device : Option ConnId) (p : Tunnel.Pc) (ch : Tunnel.Choice)
      (tn : Tunnel.Shared) : p ≠ .idle → Tunnel.next s.tunnel p ch = some (tn, .idle) →
      Acts cfg s (.handle n device p) { s with tunnel := tn } (resume device p n)
  | control (n n' : Negotiation.Pc) (device : Option ConnId) (c : Negotiation.Choice)
      (g : Negotiation.Shared) : mustCall n = false →
      Negotiation.next s.negotiation n c = some (g, n') →
      Acts cfg s (.handle n device .idle) { s with negotiation := g } (.handle n' device .idle)
  | release (device : Option ConnId) : s.slots ≠ 0 →
      Acts cfg s (.handle .returned device .idle) { s with slots := s.slots - 1 } .released
  | silent (f : Bool) (p' : Tunnel.Pc) (tn : Tunnel.Shared) :
      Tunnel.next s.tunnel .idle (.call .close) = some (tn, p') →
      Acts cfg s (.dialTimeout f) { s with tunnel := tn } (.handle (.realm .dial f) none p')
  | retire (f : Bool) (tn : Tunnel.Shared) :
      Tunnel.next s.tunnel .idle (.call .retire) = some (tn, .idle) →
      Acts cfg s (.dialTimeout f) { s with tunnel := tn }
        (.handle (.realm (.once .dialError) f) none .idle)
  | giveUp (f : Bool) :
      Acts cfg s (.dialTimeout f) s (.handle (.realm (.once .dialError) f) none .idle)
  | done : Acts cfg s .released { s with wg := s.wg - 1 } (.tunnel .idle)

section acts
variable {cfg : Config} {s s' : Shared} {pc pc' : Pc} {ch : Choice}

theorem inTunnel_eq_some {p : Tunnel.Pc} {c : Tunnel.Choice} {k : Tunnel.Pc → Pc} :
    inTunnel s p c k = some (s', pc') ↔
      ∃ tn p', Tunnel.next s.tunnel p c = some (tn, p') ∧ s' = { s with tunnel := tn } ∧
        pc' = k p' := by
  simp only [inTunnel, Option.map_eq_some_iff, Prod.exists, Prod.mk.injEq]
  constructor
  · rintro ⟨tn, p', hn, rfl, rfl⟩
    exact ⟨tn, p', hn, rfl, rfl⟩
  · rintro ⟨tn, p', hn, rfl, rfl⟩
    exact ⟨tn, p', hn, rfl, rfl⟩

/-- `Retire` takes one step. -/
theorem retire_idle {tn tn' : Tunnel.Shared} {p' : Tunnel.Pc}
    (h : Tunnel.next tn .idle (.call .retire) = some (tn', p')) : p' = .idle := by
  simp only [Tunnel.next, Tunnel.stepCall, Option.ite_none_left_eq_some, Option.some.injEq,
    Prod.mk.injEq] at h
  exact h.2.2.symm

theorem stepTunnel_acts {p : Tunnel.Pc} (h : stepTunnel s p ch = some (s', pc')) :
    Acts cfg s (.tunnel p) s' pc' := by
  cases ch with
  | tunnel c =>
      obtain ⟨hres, h⟩ := Option.ite_none_left_eq_some.mp h
      obtain ⟨tn, p', hn, rfl, rfl⟩ := inTunnel_eq_some.mp h
      exact .tunnel p p' c tn (Bool.of_not_eq_true hres) hn
  | go =>
      cases p with
      | idle =>
          obtain ⟨hst, h⟩ := Option.ite_none_left_eq_some.mp h
          cases h
          exact .run hst
      | _ => cases h
  | _ => cases h

theorem stepServe_acts {p : ServePc} (h : stepServe cfg s p ch = some (s', pc')) :
    Acts cfg s (.serve p) s' pc' := by
  cases p with
  | accept =>
      cases ch with
      | go =>
          cases h
          exact .accept
      | fail =>
          cases h
          exact .acceptFail
      | _ => cases h
  | select =>
      cases ch with
      | go =>
          simp only [stepServe] at h
          split at h
          · rename_i hlt
            cases h
            exact .take hlt
          · cases h
            exact .reject
      | _ => cases h
  | shutdown =>
      cases ch with
      | go =>
          simp only [stepServe] at h
          obtain ⟨tn, p', hn, rfl, rfl⟩ := inTunnel_eq_some.mp h
          exact .shutdown p' tn hn
      | _ => cases h
  | closing p =>
      cases ch with
      | tunnel c =>
          simp only [stepServe] at h
          obtain ⟨tn, p', hn, rfl, rfl⟩ := inTunnel_eq_some.mp h
          split
          · exact .closed p c tn hn
          · rename_i hidle
            exact .closing p p' c tn hidle hn
      | _ => cases h
  | wait =>
      cases ch with
      | go =>
          obtain ⟨hwg, h⟩ := Option.ite_none_right_eq_some.mp h
          cases h
          exact .wait hwg
      | _ => cases h
  | returned => cases h

theorem stepHandle_acts {n : Negotiation.Pc} {device : Option ConnId} {p : Tunnel.Pc}
    (h : stepHandle s n device p ch = some (s', pc')) : Acts cfg s (.handle n device p) s' pc' := by
  by_cases hidle : p = .idle
  · subst hidle
    cases ch with
    | go =>
        cases n with
        | returned =>
            obtain ⟨hsl, h⟩ := Option.ite_none_left_eq_some.mp h
            cases h
            exact .release device hsl
        | _ => cases h
    | fail => cases h
    | tunnel c =>
        cases c with
        | call k =>
            obtain ⟨hcalls, h⟩ := Option.ite_none_right_eq_some.mp h
            obtain ⟨tn, p', hn, rfl, rfl⟩ := inTunnel_eq_some.mp h
            exact .call n device k p' tn hcalls hn
        | _ => cases h
    | control c =>
        obtain ⟨hmust, h⟩ := Option.ite_none_left_eq_some.mp h
        obtain ⟨⟨g, n'⟩, hn, he⟩ := Option.map_eq_some_iff.mp h
        cases he
        exact .control n n' device c g (Bool.of_not_eq_true hmust) hn
  · have hin : ∃ c, ch = .tunnel c ∧ inTunnel s p c (fun p' => match p' with
        | .idle => resume device p n
        | p' => .handle n device p') = some (s', pc') := by
      unfold stepHandle at h
      split at h
      · exact absurd rfl hidle
      · exact absurd rfl hidle
      · exact absurd rfl hidle
      · exact absurd rfl hidle
      · exact ⟨_, rfl, h⟩
      · cases h
    obtain ⟨c, rfl, hc⟩ := hin
    obtain ⟨tn, p', hn, rfl, rfl⟩ := inTunnel_eq_some.mp hc
    split
    · exact .ret n device p c tn hidle hn
    · rename_i hne
      exact .inside n device p p' c tn hidle hne hn

theorem stepDialTimeout_acts {f : Bool} (h : stepDialTimeout s f ch = some (s', pc')) :
    Acts cfg s (.dialTimeout f) s' pc' := by
  cases ch with
  | go =>
      simp only [stepDialTimeout] at h
      split at h
      · obtain ⟨tn, p', hn, rfl, rfl⟩ := inTunnel_eq_some.mp h
        exact .silent f p' tn hn
      · split at h
        · obtain ⟨tn, p', hn, rfl, rfl⟩ := inTunnel_eq_some.mp h
          cases retire_idle hn
          exact .retire f tn hn
        · cases h
          exact .giveUp f
  | _ => cases h

/-- **Every step is one of these actions.** -/
theorem next_acts (h : next cfg s pc ch = some (s', pc')) : Acts cfg s pc s' pc' := by
  cases pc with
  | tunnel p => exact stepTunnel_acts h
  | serve p => exact stepServe_acts h
  | handle n device p => exact stepHandle_acts h
  | dialTimeout f => exact stepDialTimeout_acts h
  | released =>
      cases ch with
      | go =>
          cases h
          exact .done
      | _ => cases h

end acts

/-! ### The tunnel inside -/

/-- Where the goroutine is inside the tunnel. -/
def Pc.inside : Pc → Tunnel.Pc
  | .tunnel p => p
  | .serve (.closing p) => p
  | .handle _ _ p => p
  | _ => .idle

@[simp] theorem resume_inside (device : Option ConnId) (p : Tunnel.Pc) (n : Negotiation.Pc) :
    (resume device p n).inside = .idle := by
  unfold resume
  split
  · split <;> rfl
  all_goals rfl

/-- The tunnel of the bridge. -/
def tunnelOf (w : World Shared Pc) : World Tunnel.Shared Tunnel.Pc :=
  ⟨w.shared.tunnel, fun t => (w.thr t).inside⟩

section projection
variable {cfg : Config} {s s' : Shared} {pc pc' : Pc} {w w' : World Shared Pc}

/-- A goroutine takes a step in the tunnel, or does nothing there. -/
theorem Acts.tunnel_cases (h : Acts cfg s pc s' pc') :
    (s'.tunnel = s.tunnel ∧ pc'.inside = pc.inside) ∨
      ∃ ch, Tunnel.next s.tunnel pc.inside ch = some (s'.tunnel, pc'.inside) := by
  cases h with
  | tunnel p p' ch tn _ hn => exact Or.inr ⟨ch, hn⟩
  | shutdown p' tn hn | call _ _ _ p' tn _ hn | silent _ p' tn hn | retire _ tn hn =>
      exact Or.inr ⟨_, hn⟩
  | closing p p' ch tn _ hn => exact Or.inr ⟨ch, hn⟩
  | closed p ch tn hn => exact Or.inr ⟨ch, hn⟩
  | inside _ _ p p' ch tn _ _ hn => exact Or.inr ⟨ch, hn⟩
  | ret n device p ch tn _ hn =>
      refine Or.inr ⟨ch, ?_⟩
      rw [resume_inside]
      exact hn
  | _ => exact Or.inl ⟨rfl, rfl⟩

theorem inside_update (thr : ℕ → Pc) (t : ℕ) (pc : Pc) :
    (fun u => (Function.update thr t pc u).inside) =
      Function.update (fun u => (thr u).inside) t pc.inside :=
  Function.comp_update Pc.inside thr t pc

/-- **Every run of the bridge is a run of its tunnel.** -/
theorem tunnelOf_reachable (h : (system cfg).Reachable w) :
    Tunnel.system.Reachable (tunnelOf w) := by
  refine System.Reachable.simulate (f := tunnelOf) ?_ ?_ h
  · rintro _ ⟨now, session, hnow, rfl⟩
    refine ⟨now, session, hnow, ?_⟩
    have hthr : (fun t => (startThreads t).inside) = Tunnel.startThreads := by
      funext t
      match t with
      | 0 | 1 | 2 | _ + 3 => rfl
    simp only [tunnelOf, start, hthr]
    rfl
  · intro w l w' _ hs
    cases l with
    | thread t ch =>
        obtain ⟨s, pc, hn, rfl⟩ := interleave_step_thread.mp hs
        simp only [tunnelOf, inside_update]
        rcases (next_acts hn).tunnel_cases with ⟨htn, hpc⟩ | ⟨c, hc⟩
        · refine Or.inl ?_
          rw [htn, hpc, Function.update_eq_self]
        · exact Or.inr ⟨.thread t c, interleave_step_thread.mpr ⟨_, _, hc, rfl⟩⟩
    | env d =>
        obtain ⟨s, he, rfl⟩ := interleave_step_env.mp hs
        cases he
        exact Or.inr ⟨.env d, rfl⟩

end projection

end DahuaP2p.Serve
