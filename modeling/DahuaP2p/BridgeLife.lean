import DahuaP2p.Negotiation

/-! # The life of the bridge (`run`, `bridge.serve`, `bridge.shutdown`)

The goroutine of `run` connects the tunnel, accepts connections until it cannot any more, and then
closes the tunnel and the connections and waits for the `handle` goroutines.  Who stops it is a
signal, a tunnel that closes itself, or a `handle` that finds the tunnel closed or retired, and all
of them only cancel the context.

* **`run`.** There is one such goroutine, so that its control state is part of the shared state.  It
  accepts connections, numbers them and hands each of them to a new goroutine or rejects it.
* **`handle`.** Its control flow is that of `Negotiation`.  A call on a connection that the bridge
  has closed does not succeed (`allowed`).
* **The tunnel** is a flag here.  It is set in the step in which `Close` has closed the socket and
  lets go of `t.mu`, whoever has called it, and after it the closer calls the callback that
  `SetOnClose` has installed.  A closer that is no goroutine of the bridge, such as the reader, is
  counted in `firing` until it has called the callback.  A `Close` that never gets there leaves the
  flag as it is; `BridgeRefinement` has the steps inside.
* **Who has a connection.** From `Accept` on it is in the hand of `run`, of a goroutine that was
  started, or of one that runs, and it is in the map as long as it may have to be closed by
  `shutdown` (`Tracking`).  `returned_clean`: when `run` returns, nothing is left of what
  `handle` does. -/

namespace DahuaP2p.Life

open Threads

/-! ### The model -/

/-- The accepted connections are numbered in their order. -/
abbrev ConnId := ℕ

/-- Where `run` goes on after the callback. -/
inductive Resume where
  | listen
  | quit
  | shutdown
deriving DecidableEq, Repr

/-- Inside `run`, `serve` and `shutdown`. -/
inductive MainPc where
  | connect
  | setOnClose
  /-- `SetOnClose` or `Close` calls the callback. -/
  | callback (r : Resume)
  | listen
  /-- `Listen` has failed. -/
  | closeUnused
  | accept
  | select (c : ConnId)
  | track (c : ConnId)
  | add (c : ConnId)
  | spawn (c : ConnId)
  | reject (c : ConnId)
  | closeClient
  | snapshot
  | closing (rest : List ConnId)
  | wait
  | closeListener
  | cancel
  | returned
deriving DecidableEq, Repr

def Resume.pc : Resume → MainPc
  | listen => .listen
  | quit => .cancel
  | shutdown => .snapshot

structure Shared where
  negotiation : Negotiation.Shared := ⟨false, none, 0⟩
  main : MainPc := .connect
  /-- The context of `serve`. -/
  ctxDone : Bool := false
  listening : Bool := false
  listenerClosed : Bool := false
  /-- The goroutine that waits for the context and closes the listener. -/
  watching : Bool := false
  connected : Bool := false
  /-- The socket of the tunnel is closed. -/
  closed : Bool := false
  retired : Bool := false
  /-- The callback is installed. -/
  onClose : Bool := false
  /-- Other goroutines that have closed the tunnel and not called the callback yet. -/
  firing : ℕ := 0
  /-- Tokens in the channel `b.slots`. -/
  slots : ℕ := 0
  /-- The counter of `b.wg`. -/
  wg : ℕ := 0
  accepted : ℕ := 0
  /-- The keys of `b.connections`. -/
  connections : List ConnId := []
  /-- Goroutines that `serve` has started and that have not run yet. -/
  started : List ConnId := []
  /-- The bridge has closed the connection. -/
  upstreamClosed : ConnId → Bool := fun _ => false

inductive Pc where
  | idle
  | handle (c : ConnId) (n : Negotiation.Pc)
  /-- `Client.Dial` has closed the tunnel and calls the callback. -/
  | fire (c : ConnId) (f : Bool)
  /-- Behind `untrack`: `<-b.slots`, then `b.wg.Done`. -/
  | release
  | done
  | gone
deriving DecidableEq, Repr

inductive Choice where
  | go
  | start (c : ConnId)
  | control (ch : Negotiation.Choice)
  /-- `Dial` has timed out, and the tunnel was silent or granted nothing. -/
  | silent
  | retire
deriving DecidableEq, Repr

/-- What happens without a `handle` goroutine: a step of `run`, where `ok` is the outcome of its
call, one of the goroutine that waits for the context, a signal, a tunnel that is closed by one of
its own goroutines, and time. -/
inductive Env where
  | main (ok : Bool)
  | watcher
  | signal
  | close
  | fire
  | tick (d : ℕ)
deriving DecidableEq, Repr

def closeConn (s : Shared) (c : ConnId) : Shared :=
  { s with upstreamClosed := Function.update s.upstreamClosed c true }

/-- `b.client.Close`, and then the callback if it is installed. -/
def closeClient (s : Shared) (r : Resume) : Shared :=
  if s.closed then { s with main := r.pc }
  else { s with closed := true, main := if s.onClose then .callback r else r.pc }

def stepMain (limit : ℕ) (s : Shared) (ok : Bool) : Option Shared :=
  match s.main, ok with
  | .connect, true => some { s with connected := true, main := .setOnClose }
  | .connect, false => some { s with main := .cancel }
  | .setOnClose, true =>
      if s.closed then some { s with main := .callback .listen }
      else some { s with onClose := true, main := .listen }
  | .callback r, true => some { s with ctxDone := true, main := r.pc }
  | .listen, true => some { s with listening := true, watching := true, main := .accept }
  | .listen, false => some { s with main := .closeUnused }
  | .closeUnused, true => some (closeClient s .quit)
  | .accept, true =>
      if s.listenerClosed then none
      else some { s with accepted := s.accepted + 1, main := .select s.accepted }
  | .accept, false => some { s with main := .closeClient }
  | .select c, true =>
      if s.slots < limit then some { s with slots := s.slots + 1, main := .track c }
      else some { s with main := .reject c }
  | .track c, true => some { s with connections := c :: s.connections, main := .add c }
  | .add c, true => some { s with wg := s.wg + 1, main := .spawn c }
  | .spawn c, true => some { s with started := c :: s.started, main := .accept }
  | .reject c, true => some { closeConn s c with main := .accept }
  | .closeClient, true => some (closeClient s .shutdown)
  | .snapshot, true => some { s with main := .closing s.connections }
  | .closing (c :: rest), true => some { closeConn s c with main := .closing rest }
  | .closing [], true => some { s with main := .wait }
  | .wait, true => if s.wg = 0 then some { s with main := .closeListener } else none
  -- the deferred calls of `run`
  | .closeListener, true => some { s with listenerClosed := true, main := .cancel }
  | .cancel, true => some { s with ctxDone := true, main := .returned }
  | _, _ => none

def stepEnv (limit : ℕ) (s : Shared) : Env → Option Shared
  | .main ok => stepMain limit s ok
  | .watcher =>
      if s.watching && s.ctxDone then some { s with listenerClosed := true, watching := false }
      else none
  | .signal => some { s with ctxDone := true }
  | .close =>
      if s.connected && !s.closed then
        some { s with closed := true, firing := s.firing + s.onClose.toNat }
      else none
  | .fire => if s.firing = 0 then none else some { s with firing := s.firing - 1, ctxDone := true }
  | .tick d => some { s with negotiation := { s.negotiation with now := s.negotiation.now + d } }

/-- What a connection that the bridge has closed rules out. -/
def allowed (s : Shared) (c : ConnId) : Negotiation.Pc → Negotiation.Choice → Bool
  | .setInitialDeadline, .ok => !s.upstreamClosed c
  | .clearInitialDeadline, .ok => !s.upstreamClosed c
  | .realm .setUpstreamDeadline _, .ok => !s.upstreamClosed c
  -- a response is written to the client
  | .realm .response _, .ok => !s.upstreamClosed c
  | .realm .response _, .finished => !s.upstreamClosed c
  | _, _ => true

/-- What `handle` does to the bridge with its next step. -/
def effect (c : ConnId) (n : Negotiation.Pc) (s : Shared) : Shared :=
  match n with
  | .realm .copyBoth _ => closeConn s c
  | .closeUpstream => closeConn s c
  | .noRealm => if s.closed || s.retired then { s with ctxDone := true } else s
  | _ => s

/-- One action of a goroutine that `serve` has started. -/
def next (s : Shared) (pc : Pc) (ch : Choice) : Option (Shared × Pc) :=
  match pc, ch with
  | .idle, .start c =>
      if c ∈ s.started then some ({ s with started := s.started.erase c }, .handle c .idle)
      else none
  | .handle c n, .control ch =>
      if allowed s c n ch then
        (Negotiation.next s.negotiation n ch).map fun r =>
          (effect c n { s with negotiation := r.1 }, .handle c r.2)
      else none
  | .handle c (.realm .dial f), .silent =>
      if s.closed then none
      else some ({ s with closed := true },
        if s.onClose then .fire c f else .handle c (.realm (.once .dialError) f))
  | .handle c (.realm .dial f), .retire =>
      some ({ s with retired := true }, .handle c (.realm (.once .dialError) f))
  | .handle c .returned, .go =>
      some ({ s with connections := s.connections.filter (· ≠ c) }, .release)
  | .fire c f, .go =>
      some ({ s with ctxDone := true }, .handle c (.realm (.once .dialError) f))
  | .release, .go => if s.slots = 0 then none else some ({ s with slots := s.slots - 1 }, .done)
  | .done, .go => some ({ s with wg := s.wg - 1 }, .gone)
  | _, _ => none

/-- Before `run`. -/
def start : World Shared Pc := ⟨{}, fun _ => .idle⟩

def system (limit : ℕ) : System (World Shared Pc) (Label Choice Env) :=
  interleave (· = start) next (stepEnv limit)

/-! ### The actions -/

/-- What a goroutine can do. -/
inductive Acts (s : Shared) : Pc → Shared → Pc → Prop
  | start (c : ConnId) : c ∈ s.started →
      Acts s .idle { s with started := s.started.erase c } (.handle c .idle)
  | control (c : ConnId) (n n' : Negotiation.Pc) (ch : Negotiation.Choice)
      (g : Negotiation.Shared) : allowed s c n ch = true →
      Negotiation.next s.negotiation n ch = some (g, n') →
      Acts s (.handle c n) (effect c n { s with negotiation := g }) (.handle c n')
  | silent (c : ConnId) (f : Bool) (pc' : Pc) : s.closed = false →
      (s.onClose = true → pc' = .fire c f) →
      (s.onClose = false → pc' = .handle c (.realm (.once .dialError) f)) →
      Acts s (.handle c (.realm .dial f)) { s with closed := true } pc'
  | retire (c : ConnId) (f : Bool) :
      Acts s (.handle c (.realm .dial f)) { s with retired := true }
        (.handle c (.realm (.once .dialError) f))
  | untrack (c : ConnId) :
      Acts s (.handle c .returned) { s with connections := s.connections.filter (· ≠ c) } .release
  | fire (c : ConnId) (f : Bool) :
      Acts s (.fire c f) { s with ctxDone := true } (.handle c (.realm (.once .dialError) f))
  | release : s.slots ≠ 0 → Acts s .release { s with slots := s.slots - 1 } .done
  | done : Acts s .done { s with wg := s.wg - 1 } .gone

/-- **Every step of a goroutine is one of these actions.** -/
theorem next_acts {s s' : Shared} {pc pc' : Pc} {ch : Choice} (h : next s pc ch = some (s', pc')) :
    Acts s pc s' pc' := by
  unfold next at h
  split at h
  · obtain ⟨hc, h⟩ := Option.ite_none_right_eq_some.mp h
    cases h
    exact .start _ hc
  · obtain ⟨hallowed, h⟩ := Option.ite_none_right_eq_some.mp h
    obtain ⟨⟨g, n'⟩, hn, he⟩ := Option.map_eq_some_iff.mp h
    cases he
    exact .control _ _ n' _ g hallowed hn
  · obtain ⟨hopen, h⟩ := Option.ite_none_left_eq_some.mp h
    cases h
    refine .silent _ _ _ (Bool.of_not_eq_true hopen) (fun hf => ?_) (fun hf => ?_)
    · rw [if_pos hf]
    · rw [if_neg (by simp [hf])]
  · cases h
    exact .retire _ _
  · cases h
    exact .untrack _
  · cases h
    exact .fire _ _
  · obtain ⟨hslots, h⟩ := Option.ite_none_left_eq_some.mp h
    cases h
    exact .release hslots
  · cases h
    exact .done
  · cases h

/-- What `run` can do. -/
inductive MainActs (limit : ℕ) (s : Shared) : MainPc → Shared → Prop
  | connect : MainActs limit s .connect { s with connected := true, main := .setOnClose }
  | connectFail : MainActs limit s .connect { s with main := .cancel }
  | alreadyClosed : s.closed = true →
      MainActs limit s .setOnClose { s with main := .callback .listen }
  | install : s.closed = false →
      MainActs limit s .setOnClose { s with onClose := true, main := .listen }
  | callback (r : Resume) : MainActs limit s (.callback r) { s with ctxDone := true, main := r.pc }
  | listen :
      MainActs limit s .listen { s with listening := true, watching := true, main := .accept }
  | listenFail : MainActs limit s .listen { s with main := .closeUnused }
  | closeUnused : MainActs limit s .closeUnused (closeClient s .quit)
  | accept : s.listenerClosed = false →
      MainActs limit s .accept { s with accepted := s.accepted + 1, main := .select s.accepted }
  | acceptFail : MainActs limit s .accept { s with main := .closeClient }
  | take (c : ConnId) : s.slots < limit →
      MainActs limit s (.select c) { s with slots := s.slots + 1, main := .track c }
  | full (c : ConnId) : MainActs limit s (.select c) { s with main := .reject c }
  | track (c : ConnId) :
      MainActs limit s (.track c) { s with connections := c :: s.connections, main := .add c }
  | add (c : ConnId) : MainActs limit s (.add c) { s with wg := s.wg + 1, main := .spawn c }
  | spawn (c : ConnId) :
      MainActs limit s (.spawn c) { s with started := c :: s.started, main := .accept }
  | reject (c : ConnId) : MainActs limit s (.reject c) { closeConn s c with main := .accept }
  | closeClient : MainActs limit s .closeClient (closeClient s .shutdown)
  | snapshot : MainActs limit s .snapshot { s with main := .closing s.connections }
  | closing (c : ConnId) (rest : List ConnId) :
      MainActs limit s (.closing (c :: rest)) { closeConn s c with main := .closing rest }
  | closingEnd : MainActs limit s (.closing []) { s with main := .wait }
  | wait : s.wg = 0 → MainActs limit s .wait { s with main := .closeListener }
  | closeListener :
      MainActs limit s .closeListener { s with listenerClosed := true, main := .cancel }
  | cancel : MainActs limit s .cancel { s with ctxDone := true, main := .returned }

theorem stepMain_acts {limit : ℕ} {s s' : Shared} {ok : Bool} (h : stepMain limit s ok = some s') :
    MainActs limit s s.main s' := by
  unfold stepMain at h
  split at h
  all_goals first
    | (rename_i hm; rw [hm])
    | cases h
  · cases h
    exact .connect
  · cases h
    exact .connectFail
  · split at h <;> rename_i hclosed <;> cases h
    · exact .alreadyClosed hclosed
    · exact .install (Bool.of_not_eq_true hclosed)
  · cases h
    exact .callback _
  · cases h
    exact .listen
  · cases h
    exact .listenFail
  · cases h
    exact .closeUnused
  · obtain ⟨hopen, h⟩ := Option.ite_none_left_eq_some.mp h
    cases h
    exact .accept (Bool.of_not_eq_true hopen)
  · cases h
    exact .acceptFail
  · split at h <;> rename_i hslots <;> cases h
    · exact .take _ hslots
    · exact .full _
  · cases h
    exact .track _
  · cases h
    exact .add _
  · cases h
    exact .spawn _
  · cases h
    exact .reject _
  · cases h
    exact .closeClient
  · cases h
    exact .snapshot
  · cases h
    exact .closing _ _
  · cases h
    exact .closingEnd
  · obtain ⟨hwg, h⟩ := Option.ite_none_right_eq_some.mp h
    cases h
    exact .wait hwg
  · cases h
    exact .closeListener
  · cases h
    exact .cancel

/-- What the rest of the process can do. -/
inductive OtherActs (s : Shared) : Shared → Prop
  | watcher : s.watching = true → s.ctxDone = true →
      OtherActs s { s with listenerClosed := true, watching := false }
  | signal : OtherActs s { s with ctxDone := true }
  | close : s.connected = true → s.closed = false →
      OtherActs s { s with closed := true, firing := s.firing + s.onClose.toNat }
  | fire : s.firing ≠ 0 → OtherActs s { s with firing := s.firing - 1, ctxDone := true }
  | tick (d : ℕ) : OtherActs s
      { s with negotiation := { s.negotiation with now := s.negotiation.now + d } }

theorem stepEnv_acts {limit : ℕ} {s s' : Shared} {e : Env} (h : stepEnv limit s e = some s') :
    MainActs limit s s.main s' ∨ OtherActs s s' := by
  cases e with
  | main ok => exact Or.inl (stepMain_acts h)
  | watcher =>
      obtain ⟨hw, h⟩ := Option.ite_none_right_eq_some.mp h
      rw [Bool.and_eq_true] at hw
      cases h
      exact Or.inr (.watcher hw.1 hw.2)
  | signal =>
      cases h
      exact Or.inr .signal
  | close =>
      obtain ⟨hc, h⟩ := Option.ite_none_right_eq_some.mp h
      rw [Bool.and_eq_true, Bool.not_eq_true'] at hc
      cases h
      exact Or.inr (.close hc.1 hc.2)
  | fire =>
      obtain ⟨hf, h⟩ := Option.ite_none_left_eq_some.mp h
      cases h
      exact Or.inr (.fire hf)
  | tick d =>
      cases h
      exact Or.inr (.tick d)

variable {limit : ℕ} {w : World Shared Pc} {s s' : Shared} {pc pc' : Pc} {thr : ℕ → Pc} {t : ℕ}

/-- **Invariant rule for the bridge.** -/
theorem system_invariant {I : World Shared Pc → Prop} (hstart : I start)
    (hact : ∀ s thr t s' pc, (system limit).Reachable ⟨s, thr⟩ → I ⟨s, thr⟩ →
      Acts s (thr t) s' pc → I ⟨s', Function.update thr t pc⟩)
    (hmain : ∀ s thr p s', (system limit).Reachable ⟨s, thr⟩ → I ⟨s, thr⟩ → s.main = p →
      MainActs limit s p s' → I ⟨s', thr⟩)
    (hother : ∀ s thr s', (system limit).Reachable ⟨s, thr⟩ → I ⟨s, thr⟩ → OtherActs s s' →
      I ⟨s', thr⟩)
    (h : (system limit).Reachable w) : I w := by
  refine interleave_invariant ?_ ?_ ?_ h
  · rintro w rfl
    exact hstart
  · rintro ⟨s, thr⟩ t c s' pc hr hi _ hn
    exact hact s thr t s' pc hr hi (next_acts hn)
  · rintro ⟨s, thr⟩ e s' hr hi _ he
    rcases stepEnv_acts he with ha | ha
    · exact hmain s thr s.main s' hr hi rfl ha
    · exact hother s thr s' hr hi ha

/-! ### Connections -/

/-- The connection that `run` has in hand. -/
def MainPc.hand : MainPc → Option ConnId
  | select c | track c | add c | spawn c | reject c => some c
  | _ => none

/-- The connection that `run` has put into the map and not handed over yet. -/
def MainPc.tracked : MainPc → Option ConnId
  | add c | spawn c => some c
  | _ => none

/-- The connection of a goroutine, up to its `untrack`. -/
def Pc.conn : Pc → Option ConnId
  | handle c _ | fire c _ => some c
  | _ => none

/-- The connection that a goroutine has still to close. -/
def Pc.opens : Pc → Option ConnId
  | handle _ .returned => none
  | handle c _ | fire c _ => some c
  | _ => none

/-- Who has a connection, and that it is in the map and in the end closed. -/
structure Tracking (s : Shared) (thr : ℕ → Pc) : Prop where
  unshared : Unshared Pc.conn thr
  conn_lt : ∀ t c, (thr t).conn = some c → c < s.accepted ∧ c ∉ s.started
  nodup : s.started.Nodup
  started_lt : ∀ c ∈ s.started, c < s.accepted
  hand : ∀ c, s.main.hand = some c →
    c + 1 = s.accepted ∧ c ∉ s.started ∧ ∀ t, (thr t).conn ≠ some c
  tracked : ∀ c, c ∈ s.connections ↔
    c ∈ s.started ∨ (∃ t, (thr t).conn = some c) ∨ s.main.tracked = some c
  closed : ∀ c, c < s.accepted → s.upstreamClosed c = true ∨ c ∈ s.started ∨
    (∃ t, (thr t).opens = some c) ∨ s.main.hand = some c

/-- A step that takes no connection and hands none over. -/
structure Frame (s s' : Shared) : Prop where
  accepted : s'.accepted = s.accepted
  connections : s'.connections = s.connections
  started : s'.started = s.started
  hand : s'.main.hand = s.main.hand
  tracked : s'.main.tracked = s.main.tracked
  closed : ∀ c, s.upstreamClosed c = true → s'.upstreamClosed c = true

theorem Tracking.of_frame (h : Tracking s thr) (hf : Frame s s') : Tracking s' thr := by
  refine ⟨h.unshared, ?_, ?_, ?_, ?_, ?_, ?_⟩
  · rw [hf.accepted, hf.started]
    exact h.conn_lt
  · rw [hf.started]
    exact h.nodup
  · rw [hf.accepted, hf.started]
    exact h.started_lt
  · rw [hf.hand, hf.accepted, hf.started]
    exact h.hand
  · rw [hf.connections, hf.started, hf.tracked]
    exact h.tracked
  · rw [hf.accepted, hf.started, hf.hand]
    exact fun c hc => (h.closed c hc).imp_left (hf.closed c)

theorem closeConn_closed (s : Shared) (c d : ConnId) (h : s.upstreamClosed d = true) :
    (closeConn s c).upstreamClosed d = true := by
  simp only [closeConn, Function.update_apply]
  split
  · rfl
  · exact h

/-- `Close` of the tunnel does not touch the connections and the goroutines. -/
theorem closeClient_frame (s : Shared) (r : Resume) :
    ∃ closed main, (main = r.pc ∨ main = .callback r) ∧
      closeClient s r = { s with closed := closed, main := main } := by
  unfold closeClient
  split
  · exact ⟨s.closed, r.pc, Or.inl rfl, rfl⟩
  · refine ⟨true, _, ?_, rfl⟩
    split
    · exact Or.inr rfl
    · exact Or.inl rfl

theorem Resume.no_hand (r : Resume) {p : MainPc} (h : p = r.pc ∨ p = .callback r) :
    p.hand = none ∧ p.tracked = none := by
  rcases h with rfl | rfl
  · cases r <;> exact ⟨rfl, rfl⟩
  · exact ⟨rfl, rfl⟩

theorem MainActs.tracking {p : MainPc} (h : MainActs limit s p s') (hp : s.main = p)
    (hi : Tracking s thr) : Tracking s' thr := by
  cases h with
  | connect | connectFail | alreadyClosed | install | listen | listenFail | acceptFail | snapshot
  | closingEnd | wait | closeListener | cancel | add | take | full =>
      exact hi.of_frame ⟨rfl, rfl, rfl, by rw [hp]; rfl, by rw [hp]; rfl, fun _ h => h⟩
  | callback r =>
      obtain ⟨hhand, htracked⟩ := r.no_hand (Or.inl rfl)
      exact hi.of_frame ⟨rfl, rfl, rfl, by rw [hp]; exact hhand, by rw [hp]; exact htracked,
        fun _ h => h⟩
  | closeUnused | closeClient =>
      obtain ⟨closed, main, hmain, heq⟩ := closeClient_frame s _
      obtain ⟨hhand, htracked⟩ := Resume.no_hand _ hmain
      rw [heq]
      exact hi.of_frame ⟨rfl, rfl, rfl, by rw [hp]; exact hhand, by rw [hp]; exact htracked,
        fun _ h => h⟩
  | closing c rest =>
      exact hi.of_frame
        ⟨rfl, rfl, rfl, by rw [hp]; rfl, by rw [hp]; rfl, closeConn_closed s c⟩
  | accept _ =>
      refine ⟨hi.unshared, fun t c hc => ?_, hi.nodup, fun c hc => ?_, ?_, ?_, ?_⟩
      · exact ⟨Nat.lt_succ_of_lt (hi.conn_lt t c hc).1, (hi.conn_lt t c hc).2⟩
      · exact Nat.lt_succ_of_lt (hi.started_lt c hc)
      · intro c hc
        cases hc
        exact ⟨rfl, fun hs => Nat.lt_irrefl _ (hi.started_lt _ hs),
          fun t ht => Nat.lt_irrefl _ (hi.conn_lt t _ ht).1⟩
      · intro c
        rw [hi.tracked c, hp]
        rfl
      · intro c hc
        rcases Nat.lt_succ_iff_lt_or_eq.mp hc with hc | rfl
        · have hold := hi.closed c hc
          rw [hp] at hold
          exact hold.imp_right (Or.imp_right (Or.imp_right nofun))
        · exact Or.inr (Or.inr (Or.inr rfl))
  | track c =>
      have htracked := hi.tracked
      have hclosed := hi.closed
      have hhand := hi.hand
      rw [hp] at htracked hclosed hhand
      refine ⟨hi.unshared, hi.conn_lt, hi.nodup, hi.started_lt, hhand, fun d => ?_, hclosed⟩
      rw [List.mem_cons, htracked d]
      simp only [MainPc.tracked, Option.some.injEq, reduceCtorEq, or_false]
      rw [or_comm, or_assoc, eq_comm]
  | spawn c =>
      have htracked := hi.tracked
      have hclosed := hi.closed
      obtain ⟨hlt, hnot, hfree⟩ := hi.hand c (by rw [hp]; rfl)
      rw [hp] at htracked hclosed
      refine ⟨hi.unshared, fun t d hd => ⟨(hi.conn_lt t d hd).1, ?_⟩,
        List.nodup_cons.mpr ⟨hnot, hi.nodup⟩, ?_, nofun, fun d => ?_, fun d hd => ?_⟩
      · rw [List.mem_cons, not_or]
        exact ⟨fun heq => hfree t (heq ▸ hd), (hi.conn_lt t d hd).2⟩
      · exact List.forall_mem_cons.mpr ⟨Nat.lt_of_succ_le hlt.le, hi.started_lt⟩
      · rw [htracked d]
        simp only [MainPc.tracked, Option.some.injEq, List.mem_cons, reduceCtorEq, or_false]
        rw [eq_comm, ← or_assoc, or_comm, or_assoc]
      · rcases hclosed d hd with h | h | h | h
        · exact Or.inl h
        · exact Or.inr (Or.inl (List.mem_cons_of_mem _ h))
        · exact Or.inr (Or.inr (Or.inl h))
        · cases h
          exact Or.inr (Or.inl List.mem_cons_self)
  | reject c =>
      have htracked := hi.tracked
      have hclosed := hi.closed
      rw [hp] at htracked hclosed
      refine ⟨hi.unshared, hi.conn_lt, hi.nodup, hi.started_lt, nofun, htracked, fun d hd => ?_⟩
      rcases hclosed d hd with h | h | h | h
      · exact Or.inl (closeConn_closed s c d h)
      · exact Or.inr (Or.inl h)
      · exact Or.inr (Or.inr (Or.inl h))
      · cases h
        exact Or.inl (Function.update_self ..)

theorem OtherActs.tracking (h : OtherActs s s') (hi : Tracking s thr) : Tracking s' thr := by
  cases h <;> exact hi.of_frame ⟨rfl, rfl, rfl, rfl, rfl, fun _ h => h⟩

/-- A goroutine goes on with the connection that it has, and may close it. -/
theorem Tracking.move (hi : Tracking s thr) (hf : Frame s s') (hconn : pc.conn = (thr t).conn)
    (hopens : pc.opens = (thr t).opens ∨
      ∃ c, (thr t).opens = some c ∧ s'.upstreamClosed c = true) :
    Tracking s' (Function.update thr t pc) := by
  have h := hi.of_frame hf
  have hconns : ∀ u, (Function.update thr t pc u).conn = (thr u).conn :=
    forall_update (P := fun u (p : Pc) => p.conn = (thr u).conn) hconn fun _ _ => rfl
  refine ⟨?_, ?_, h.nodup, h.started_lt, ?_, ?_, fun c hc => ?_⟩
  · exact h.unshared.update fun a ha => Or.inl (hconn ▸ ha)
  · intro u c hc
    exact h.conn_lt u c (hconns u ▸ hc)
  · intro c hc
    obtain ⟨hlt, hnot, hfree⟩ := h.hand c hc
    exact ⟨hlt, hnot, fun u => hconns u ▸ hfree u⟩
  · intro c
    simp only [hconns]
    exact h.tracked c
  · rcases h.closed c hc with hcl | hst | ⟨u, hu⟩ | hhand
    · exact Or.inl hcl
    · exact Or.inr (Or.inl hst)
    · by_cases hut : u = t
      · subst hut
        rcases hopens with heq | ⟨d, hd, hcl⟩
        · exact Or.inr (Or.inr (Or.inl (exists_update_self (heq.trans hu))))
        · obtain rfl : d = c := Option.some.inj (hd.symm.trans hu)
          exact Or.inl hcl
      · exact Or.inr (Or.inr (Or.inl (exists_update hut hu)))
    · exact Or.inr (Or.inr (Or.inr hhand))

/-- `handle` returns from its last step, in which it closes its connection. -/
theorem next_returned {g g' : Negotiation.Shared} {n : Negotiation.Pc} {ch : Negotiation.Choice}
    (h : Negotiation.next g n ch = some (g', .returned)) : n = .closeUpstream := by
  unfold Negotiation.next at h
  split at h
  · split at h <;> cases h
  · split at h <;> cases h
  · split at h <;> cases h
  · cases h
  · split at h <;> cases h
  · obtain ⟨n', hadv, he⟩ := Option.map_eq_some_iff.mp h
    cases he
    unfold Negotiation.advance at hadv
    split at hadv
    all_goals first
      | rfl
      | cases hadv
      | (cases ‹Negotiation.Caller› <;> cases hadv)

theorem next_of_returned {g : Negotiation.Shared} {ch : Negotiation.Choice} :
    Negotiation.next g .returned ch = none := by
  cases ch <;> rfl

theorem opens_handle {c : ConnId} {n : Negotiation.Pc} (h : n ≠ .returned) :
    (Pc.handle c n).opens = some c := by
  unfold Pc.opens
  split
  · rename_i heq
    cases heq
    exact absurd rfl h
  · rename_i heq
    cases heq
    rfl
  · rename_i heq
    cases heq
  · rename_i hne _
    exact absurd rfl (hne c n)

/-- A step of `handle` closes its own connection, cancels the context or does nothing to the
bridge. -/
theorem effect_cases (c : ConnId) (n : Negotiation.Pc) (s : Shared) :
    effect c n s = closeConn s c ∨ effect c n s = { s with ctxDone := true } ∨
      effect c n s = s := by
  unfold effect
  split
  · exact Or.inl rfl
  · exact Or.inl rfl
  · split
    · exact Or.inr (Or.inl rfl)
    · exact Or.inr (Or.inr rfl)
  · exact Or.inr (Or.inr rfl)

theorem effect_frame (c : ConnId) (n : Negotiation.Pc) (s : Shared) (g : Negotiation.Shared) :
    Frame s (effect c n { s with negotiation := g }) := by
  rcases effect_cases c n { s with negotiation := g } with heq | heq | heq <;> rw [heq]
  · exact ⟨rfl, rfl, rfl, rfl, rfl, closeConn_closed { s with negotiation := g } c⟩
  · exact ⟨rfl, rfl, rfl, rfl, rfl, fun _ h => h⟩
  · exact ⟨rfl, rfl, rfl, rfl, rfl, fun _ h => h⟩

theorem MainPc.hand_of_tracked {p : MainPc} {c : ConnId} (h : p.tracked = some c) :
    p.hand = some c := by
  cases p with
  | add d | spawn d => exact h
  | _ => cases h

theorem exists_conn_update {c : ConnId} :
    (∃ u, (Function.update thr t pc u).conn = some c) ↔
      pc.conn = some c ∨ ∃ u, u ≠ t ∧ (thr u).conn = some c := by
  constructor
  · rintro ⟨u, hu⟩
    by_cases hut : u = t
    · rw [hut, Function.update_self] at hu
      exact Or.inl hu
    · rw [Function.update_of_ne hut] at hu
      exact Or.inr ⟨u, hut, hu⟩
  · rintro (h | ⟨u, hut, hu⟩)
    · exact exists_update_self h
    · exact exists_update hut hu

theorem exists_other_iff {c : ConnId} (ht : (thr t).conn ≠ some c) :
    (∃ u, (thr u).conn = some c) ↔ ∃ u, u ≠ t ∧ (thr u).conn = some c := by
  constructor
  · rintro ⟨u, hu⟩
    exact ⟨u, fun heq => ht (heq ▸ hu), hu⟩
  · rintro ⟨u, _, hu⟩
    exact ⟨u, hu⟩

theorem Acts.tracking (h : Acts s (thr t) s' pc) (hi : Tracking s thr) :
    Tracking s' (Function.update thr t pc) := by
  generalize hp : thr t = p at h
  cases h with
  | start c hc =>
      have hnone : ∀ u, (thr u).conn ≠ some c := fun u hu => (hi.conn_lt u c hu).2 hc
      refine ⟨?_, ?_, hi.nodup.erase c, fun d hd => hi.started_lt d (List.mem_of_mem_erase hd),
        ?_, ?_, ?_⟩
      · refine hi.unshared.update fun d hd => Or.inr fun u _ => ?_
        cases hd
        exact hnone u
      · refine forall_update (P := fun u (p : Pc) => ∀ d, p.conn = some d →
          d < s.accepted ∧ d ∉ s.started.erase c) ?_ fun u _ d hd => ?_
        · intro d hd
          cases hd
          exact ⟨hi.started_lt c hc, hi.nodup.not_mem_erase⟩
        · exact ⟨(hi.conn_lt u d hd).1,
            fun hmem => (hi.conn_lt u d hd).2 (List.mem_of_mem_erase hmem)⟩
      · intro d hd
        obtain ⟨hlt, hnot, hfree⟩ := hi.hand d hd
        refine ⟨hlt, fun hmem => hnot (List.mem_of_mem_erase hmem), ?_⟩
        refine forall_update (P := fun u (p : Pc) => p.conn ≠ some d) ?_ fun u _ => hfree u
        intro heq
        cases heq
        exact hnot hc
      · intro d
        rw [hi.tracked d, exists_conn_update]
        by_cases hd : d = c
        · subst hd
          exact iff_of_true (Or.inl hc) (Or.inr (Or.inl (Or.inl rfl)))
        · rw [List.mem_erase_of_ne hd, exists_other_iff (by rw [hp]; nofun)]
          have hcd : (Pc.handle c .idle).conn ≠ some d := fun heq => hd (Option.some.inj heq).symm
          simp only [hcd, false_or]
      · intro d hd
        rcases hi.closed d hd with h | h | ⟨u, hu⟩ | h
        · exact Or.inl h
        · by_cases hdc : d = c
          · subst hdc
            exact Or.inr (Or.inr (Or.inl (exists_update_self rfl)))
          · exact Or.inr (Or.inl ((List.mem_erase_of_ne hdc).mpr h))
        · have hut : u ≠ t := by
            rintro rfl
            rw [hp] at hu
            cases hu
          exact Or.inr (Or.inr (Or.inl (exists_update hut hu)))
        · exact Or.inr (Or.inr (Or.inr h))
  | control c n n' ch g _ hn =>
      have hne : n ≠ .returned := by
        rintro rfl
        rw [next_of_returned] at hn
        cases hn
      refine hi.move (effect_frame c n s g) (by rw [hp]; rfl) ?_
      rw [hp, opens_handle hne]
      by_cases hret : n' = .returned
      · subst hret
        obtain rfl := next_returned hn
        exact Or.inr ⟨c, rfl, Function.update_self ..⟩
      · exact Or.inl (opens_handle hret)
  | silent c f pc' _ hfire hno =>
      have hpc : pc.conn = some c ∧ pc.opens = some c := by
        cases hon : s.onClose with
        | true =>
            rw [hfire hon]
            exact ⟨rfl, rfl⟩
        | false =>
            rw [hno hon]
            exact ⟨rfl, rfl⟩
      exact hi.move ⟨rfl, rfl, rfl, rfl, rfl, fun _ h => h⟩ (by rw [hp]; exact hpc.1)
        (Or.inl (by rw [hp]; exact hpc.2))
  | untrack c =>
      have hconn : (thr t).conn = some c := by rw [hp]; rfl
      refine ⟨hi.unshared.update nofun, ?_, hi.nodup, hi.started_lt, ?_, ?_, ?_⟩
      · exact forall_update (P := fun u (p : Pc) => ∀ d, p.conn = some d →
          d < s.accepted ∧ d ∉ s.started) nofun fun u _ => hi.conn_lt u
      · intro d hd
        obtain ⟨hlt, hnot, hfree⟩ := hi.hand d hd
        exact ⟨hlt, hnot,
          forall_update (P := fun u (p : Pc) => p.conn ≠ some d) nofun fun u _ => hfree u⟩
      · intro d
        rw [List.mem_filter, decide_eq_true_eq, hi.tracked d, exists_conn_update]
        by_cases hd : d = c
        · subst hd
          -- nobody else has this connection
          refine iff_of_false (fun h => h.2 rfl) ?_
          rintro (h | (h | ⟨u, hut, hu⟩) | h)
          · exact (hi.conn_lt t d hconn).2 h
          · cases h
          · exact hut (hi.unshared u t d hu hconn)
          · exact (hi.hand d (MainPc.hand_of_tracked h)).2.2 t hconn
        · have hother : (thr t).conn ≠ some d := by
            rw [hconn]
            exact fun heq => hd (Option.some.inj heq).symm
          have hrelease : Pc.release.conn ≠ some d := nofun
          rw [exists_other_iff hother, and_iff_left hd]
          simp only [hrelease, false_or]
      · intro d hd
        rcases hi.closed d hd with h | h | ⟨u, hu⟩ | h
        · exact Or.inl h
        · exact Or.inr (Or.inl h)
        · have hut : u ≠ t := by
            rintro rfl
            rw [hp] at hu
            cases hu
          exact Or.inr (Or.inr (Or.inl (exists_update hut hu)))
        · exact Or.inr (Or.inr (Or.inr h))
  | retire | fire | release | done =>
      exact hi.move ⟨rfl, rfl, rfl, rfl, rfl, fun _ h => h⟩ (by rw [hp]; rfl)
        (Or.inl (by rw [hp]; rfl))

theorem tracking (h : (system limit).Reachable w) : Tracking w.shared w.thr := by
  refine system_invariant (I := fun w => Tracking w.shared w.thr) ?_ ?_ ?_ ?_ h
  · refine ⟨fun t u a ha => ?_, nofun, List.nodup_nil, nofun, nofun, fun c => ?_, fun c hc => ?_⟩
    · cases ha
    · simp [start, Pc.conn, MainPc.tracked]
    · exact absurd hc (Nat.not_lt_zero c)
  · exact fun s thr t s' pc _ hi ha => ha.tracking hi
  · exact fun s thr p s' _ hi hp ha => ha.tracking hp hi
  · exact fun s thr s' _ hi ha => ha.tracking hi

/-! ### Slots and goroutines -/

/-- The goroutine has a token in `b.slots`. -/
def Pc.slot : Pc → Bool
  | handle _ _ | fire _ _ | release => true
  | _ => false

/-- The goroutine has not called `b.wg.Done` yet. -/
def Pc.live : Pc → Bool
  | handle _ _ | fire _ _ | release | done => true
  | _ => false

/-- The token of the connection that `run` has in hand. -/
def MainPc.slot : MainPc → ℕ
  | track _ | add _ | spawn _ => 1
  | _ => 0

/-- The goroutine that `run` has counted and not started yet. -/
def MainPc.added : MainPc → ℕ
  | spawn _ => 1
  | _ => 0

/-- `b.slots` and `b.wg` count the goroutines. -/
structure Counts (s : Shared) (thr : ℕ → Pc) : Prop where
  slots : ∃ n, Counted (fun p => Pc.slot p = true) thr n ∧
    s.slots = n + s.started.length + s.main.slot
  wg : ∃ n, Counted (fun p => Pc.live p = true) thr n ∧
    s.wg = n + s.started.length + s.main.added

theorem Resume.no_count (r : Resume) {p : MainPc} (h : p = r.pc ∨ p = .callback r) :
    p.slot = 0 ∧ p.added = 0 := by
  rcases h with rfl | rfl
  · cases r <;> exact ⟨rfl, rfl⟩
  · exact ⟨rfl, rfl⟩

theorem MainActs.counts {p : MainPc} (h : MainActs limit s p s') (hp : s.main = p)
    (hi : Counts s thr) : Counts s' thr := by
  obtain ⟨⟨n, hn, hslots⟩, m, hm, hwg⟩ := hi
  rw [hp] at hslots hwg
  cases h with
  | callback r =>
      obtain ⟨hslot, hadded⟩ := r.no_count (Or.inl rfl)
      exact ⟨⟨n, hn, by rw [hslot]; exact hslots⟩, m, hm, by rw [hadded]; exact hwg⟩
  | closeUnused | closeClient =>
      obtain ⟨closed, main, hmain, heq⟩ := closeClient_frame s _
      obtain ⟨hslot, hadded⟩ := Resume.no_count _ hmain
      rw [heq]
      exact ⟨⟨n, hn, by rw [hslot]; exact hslots⟩, m, hm, by rw [hadded]; exact hwg⟩
  | take c _ => exact ⟨⟨n, hn, congrArg Nat.succ hslots⟩, m, hm, hwg⟩
  | add c => exact ⟨⟨n, hn, hslots⟩, m, hm, congrArg Nat.succ hwg⟩
  | spawn c => exact ⟨⟨n, hn, hslots⟩, m, hm, hwg⟩
  | _ => exact ⟨⟨n, hn, hslots⟩, m, hm, hwg⟩

theorem OtherActs.counts (h : OtherActs s s') (hi : Counts s thr) : Counts s' thr := by
  cases h <;> exact ⟨hi.slots, hi.wg⟩

theorem effect_counts (c : ConnId) (n : Negotiation.Pc) (g : Negotiation.Shared)
    (hi : Counts s thr) : Counts (effect c n { s with negotiation := g }) thr := by
  rcases effect_cases c n { s with negotiation := g } with heq | heq | heq <;> rw [heq] <;>
    exact ⟨hi.slots, hi.wg⟩

/-- A goroutine goes on and keeps its part in the counts. -/
theorem Counts.move (hi : Counts s thr) (hslot : pc.slot = (thr t).slot)
    (hlive : pc.live = (thr t).live) : Counts s (Function.update thr t pc) := by
  obtain ⟨⟨n, hn, hslots⟩, m, hm, hwg⟩ := hi
  exact ⟨⟨n, hn.keep (by rw [hslot]), hslots⟩, m, hm.keep (by rw [hlive]), hwg⟩

theorem Acts.counts (h : Acts s (thr t) s' pc) (hi : Counts s thr) :
    Counts s' (Function.update thr t pc) := by
  generalize hp : thr t = p at h
  cases h with
  | start c hc =>
      obtain ⟨⟨n, hn, hslots⟩, m, hm, hwg⟩ := hi
      have hlen : s.started.length = (s.started.erase c).length + 1 := by
        rw [List.length_erase_of_mem hc]
        have := List.length_pos_of_mem hc
        omega
      refine ⟨⟨n + 1, hn.add (by rw [hp]; nofun) rfl, ?_⟩,
        m + 1, hm.add (by rw [hp]; nofun) rfl, ?_⟩
      · simp only [hslots, hlen]
        omega
      · simp only [hwg, hlen]
        omega
  | control c n n' ch g _ hn =>
      exact (effect_counts c n g hi).move (by rw [hp]; rfl) (by rw [hp]; rfl)
  | silent c f pc' _ hfire hno =>
      have hpc : pc.slot = true ∧ pc.live = true := by
        cases hon : s.onClose with
        | true =>
            rw [hfire hon]
            exact ⟨rfl, rfl⟩
        | false =>
            rw [hno hon]
            exact ⟨rfl, rfl⟩
      refine Counts.move ?_ (by rw [hp]; exact hpc.1) (by rw [hp]; exact hpc.2)
      exact ⟨hi.slots, hi.wg⟩
  | untrack | retire | fire =>
      refine Counts.move ?_ (by rw [hp]; rfl) (by rw [hp]; rfl)
      exact ⟨hi.slots, hi.wg⟩
  | release hpos =>
      obtain ⟨⟨n, hn, hslots⟩, m, hm, hwg⟩ := hi
      obtain ⟨k, rfl⟩ := Nat.exists_eq_succ_of_ne_zero
        (Nat.ne_of_gt (hn.pos (t := t) (by rw [hp]; rfl)))
      refine ⟨⟨k, hn.remove (by rw [hp]; rfl) nofun, ?_⟩, m, hm.keep (by rw [hp]; rfl), hwg⟩
      simp only [hslots]
      omega
  | done =>
      obtain ⟨⟨n, hn, hslots⟩, m, hm, hwg⟩ := hi
      obtain ⟨k, rfl⟩ := Nat.exists_eq_succ_of_ne_zero
        (Nat.ne_of_gt (hm.pos (t := t) (by rw [hp]; rfl)))
      refine ⟨⟨n, hn.keep (by rw [hp]; rfl), hslots⟩, k, hm.remove (by rw [hp]; rfl) nofun, ?_⟩
      simp only [hwg]
      omega

theorem counts (h : (system limit).Reachable w) : Counts w.shared w.thr := by
  refine system_invariant (I := fun w => Counts w.shared w.thr) ?_ ?_ ?_ ?_ h
  · exact ⟨⟨0, .of_none nofun, rfl⟩, 0, .of_none nofun, rfl⟩
  · exact fun s thr t s' pc _ hi ha => ha.counts hi
  · exact fun s thr p s' _ hi hp ha => ha.counts hp hi
  · exact fun s thr s' _ hi ha => ha.counts hi

/-! ### Stages of `run` -/

/-- No connection was accepted yet. -/
def MainPc.early : MainPc → Bool
  | connect | setOnClose | callback .listen | callback .quit | listen | closeUnused => true
  | _ => false

/-- `b.wg.Wait` has returned, or there was nothing to wait for. -/
def MainPc.waited : MainPc → Bool
  | closeListener | cancel | returned => true
  | _ => false

/-- `b.client.Close` was called. -/
def MainPc.shut : MainPc → Bool
  | callback .quit | callback .shutdown | snapshot | closing _ | wait | closeListener => true
  | _ => false

/-- The deferred calls of `run`. -/
def MainPc.ends : MainPc → Bool
  | cancel | returned => true
  | _ => false

/-- What the stage of `run` says about the tunnel and the listener. -/
structure Staged (s : Shared) : Prop where
  fresh : s.main = .connect → s.connected = false
  early : s.main.early = true → s.accepted = 0 ∧ s.listening = false ∧ s.wg = 0
  waited : s.main.waited = true → s.wg = 0
  shut : s.main.shut = true → s.closed = true
  unconnected : s.connected = false → s.accepted = 0 ∧ (s.main = .connect ∨ s.main.ends = true)
  installed : s.connected = true → s.main = .setOnClose ∨ s.onClose = true ∨ s.closed = true
  ends : s.main.ends = true →
    (s.connected = true → s.closed = true) ∧ (s.listening = true → s.listenerClosed = true)
  serving : s.main.early = true ∨ s.main.ends = true ∨ s.listening = true
  watched : s.listening = true → s.watching = true ∨ s.listenerClosed = true
  cancelled : s.main = .returned → s.ctxDone = true

/-- A step that closes things at most. -/
theorem Staged.mono (h : Staged s) (hmain : s'.main = s.main) (haccepted : s'.accepted = s.accepted)
    (hconnected : s'.connected = s.connected) (honClose : s'.onClose = s.onClose)
    (hlistening : s'.listening = s.listening) (hwg : s'.wg ≤ s.wg)
    (hclosed : s.closed = true → s'.closed = true)
    (hlistener : s.listenerClosed = true → s'.listenerClosed = true)
    (hwatching : s.watching = true → s'.watching = true ∨ s'.listenerClosed = true)
    (hdone : s.ctxDone = true → s'.ctxDone = true) : Staged s' := by
  refine ⟨fun hm => ?_, fun hm => ?_, fun hm => ?_, fun hm => ?_, fun hc => ?_, fun hc => ?_,
    fun hm => ?_, ?_, fun hl => ?_, fun hm => ?_⟩
  · exact hconnected.trans (h.fresh (hmain ▸ hm))
  · obtain ⟨h₁, h₂, h₃⟩ := h.early (hmain ▸ hm)
    exact ⟨haccepted.trans h₁, hlistening.trans h₂, by omega⟩
  · have := h.waited (hmain ▸ hm)
    omega
  · exact hclosed (h.shut (hmain ▸ hm))
  · rw [haccepted, hmain]
    exact h.unconnected (hconnected ▸ hc)
  · rw [hmain, honClose]
    exact (h.installed (hconnected ▸ hc)).imp_right (Or.imp_right hclosed)
  · obtain ⟨h₁, h₂⟩ := h.ends (hmain ▸ hm)
    exact ⟨fun hc => hclosed (h₁ (hconnected ▸ hc)), fun hl => hlistener (h₂ (hlistening ▸ hl))⟩
  · rw [hmain, hlistening]
    exact h.serving
  · exact (h.watched (hlistening ▸ hl)).elim hwatching fun hc => Or.inr (hlistener hc)
  · exact hdone (h.cancelled (hmain ▸ hm))

theorem MainActs.staged {p : MainPc} (h : MainActs limit s p s') (hp : s.main = p)
    (hi : Staged s) : Staged s' := by
  obtain ⟨hfresh, hearly, hwaited, hshut, hunconnected, hinstalled, hends, hserving, hwatched,
    hcancelled⟩ := hi
  rw [hp] at hfresh hearly hwaited hshut hunconnected hinstalled hends hserving hcancelled
  cases h with
  | callback r =>
      cases r <;> constructor <;>
        simp_all [MainPc.early, MainPc.waited, MainPc.shut, MainPc.ends, Resume.pc]
  | closeUnused | closeClient =>
      unfold Life.closeClient
      split
      · constructor <;> simp_all [MainPc.early, MainPc.waited, MainPc.shut, MainPc.ends, Resume.pc]
      · cases hon : s.onClose <;> constructor <;>
          simp_all [MainPc.early, MainPc.waited, MainPc.shut, MainPc.ends]
  | reject c | closing c rest =>
      constructor <;>
        simp_all [MainPc.early, MainPc.waited, MainPc.shut, MainPc.ends, closeConn]
  | _ => constructor <;> simp_all [MainPc.early, MainPc.waited, MainPc.shut, MainPc.ends]

theorem OtherActs.staged (h : OtherActs s s') (hi : Staged s) : Staged s' := by
  cases h with
  | watcher hw hd =>
      exact hi.mono rfl rfl rfl rfl rfl le_rfl id (fun _ => rfl) (fun _ => Or.inr rfl) id
  | signal | fire => exact hi.mono rfl rfl rfl rfl rfl le_rfl id id Or.inl fun _ => rfl
  | close _ _ => exact hi.mono rfl rfl rfl rfl rfl le_rfl (fun _ => rfl) id Or.inl id
  | tick d => exact hi.mono rfl rfl rfl rfl rfl le_rfl id id Or.inl id

theorem Acts.staged (h : Acts s pc s' pc') (hi : Staged s) : Staged s' := by
  cases h with
  | control c n n' ch g _ hn =>
      rcases effect_cases c n { s with negotiation := g } with heq | heq | heq <;> rw [heq]
      · exact hi.mono rfl rfl rfl rfl rfl le_rfl id id Or.inl id
      · exact hi.mono rfl rfl rfl rfl rfl le_rfl id id Or.inl fun _ => rfl
      · exact hi.mono rfl rfl rfl rfl rfl le_rfl id id Or.inl id
  | silent => exact hi.mono rfl rfl rfl rfl rfl le_rfl (fun _ => rfl) id Or.inl id
  | fire => exact hi.mono rfl rfl rfl rfl rfl le_rfl id id Or.inl fun _ => rfl
  | done => exact hi.mono rfl rfl rfl rfl rfl (Nat.sub_le _ _) id id Or.inl id
  | start | retire | untrack | release =>
      exact hi.mono rfl rfl rfl rfl rfl le_rfl id id Or.inl id

theorem staged (h : (system limit).Reachable w) : Staged w.shared := by
  refine system_invariant (I := fun w => Staged w.shared) ?_ ?_ ?_ ?_ h
  · constructor <;> simp [start, MainPc.early, MainPc.waited, MainPc.shut, MainPc.ends]
  · exact fun s thr t s' pc _ hi ha => ha.staged hi
  · exact fun s thr p s' _ hi hp ha => ha.staged hp hi
  · exact fun s thr s' _ hi ha => ha.staged hi

/-- The connections that `shutdown` has still to close. -/
def MainPc.pending : MainPc → Option (List ConnId)
  | closing rest => some rest
  | wait | closeListener | cancel | returned => some []
  | _ => none

/-- From its snapshot on, `shutdown` closes every connection that is still tracked. -/
def Swept (s : Shared) : Prop :=
  ∀ rest, s.main.pending = some rest → ∀ c ∈ s.connections, c ∈ rest ∨ s.upstreamClosed c = true

theorem Tracking.connections_lt (h : Tracking s thr) {c : ConnId} (hc : c ∈ s.connections) :
    c < s.accepted := by
  rcases (h.tracked c).mp hc with hst | ⟨t, ht⟩ | hm
  · exact h.started_lt c hst
  · exact (h.conn_lt t c ht).1
  · exact Nat.lt_of_succ_le (h.hand c (MainPc.hand_of_tracked hm)).1.le

/-- Before the first connection nothing is tracked. -/
theorem Tracking.early_empty (h : Tracking s thr) (hs : Staged s) (hm : s.main.early = true)
    (c : ConnId) : c ∉ s.connections := by
  intro hc
  have hlt := h.connections_lt hc
  rw [(hs.early hm).1] at hlt
  exact Nat.not_lt_zero c hlt

/-- Connections may be closed and taken out of the map. -/
theorem Swept.mono (h : Swept s) (hmain : s'.main = s.main)
    (hconnections : ∀ c ∈ s'.connections, c ∈ s.connections)
    (hclosed : ∀ c, s.upstreamClosed c = true → s'.upstreamClosed c = true) : Swept s' := by
  intro rest hrest c hc
  exact (h rest (hmain ▸ hrest) c (hconnections c hc)).imp_right (hclosed c)

theorem MainActs.swept {p : MainPc} (h : MainActs limit s p s') (hp : s.main = p)
    (ht : Tracking s thr) (hs : Staged s) (hi : Swept s) : Swept s' := by
  have hempty : p.early = true → ∀ c, c ∉ s.connections := fun hm => ht.early_empty hs (hp ▸ hm)
  unfold Swept at hi
  rw [hp] at hi
  cases h with
  | connectFail => exact fun _ _ c hc => absurd hc (hempty rfl c)
  | callback r =>
      cases r with
      | quit => exact fun _ _ c hc => absurd hc (hempty rfl c)
      | listen | shutdown => exact nofun
  | closeUnused =>
      obtain ⟨closed, main, _, heq⟩ := closeClient_frame s .quit
      rw [heq]
      exact fun _ _ c hc => absurd hc (hempty rfl c)
  | closeClient =>
      obtain ⟨closed, main, hmain, heq⟩ := closeClient_frame s .shutdown
      rw [heq]
      rcases hmain with rfl | rfl
      · exact nofun
      · exact nofun
  | snapshot =>
      intro rest hrest c hc
      cases hrest
      exact Or.inl hc
  | closing d rest =>
      intro rest' hrest c hc
      cases hrest
      rcases hi _ rfl c hc with hmem | hcl
      · rcases List.mem_cons.mp hmem with rfl | hmem
        · exact Or.inr (Function.update_self ..)
        · exact Or.inl hmem
      · exact Or.inr (closeConn_closed s d c hcl)
  | closingEnd | wait | closeListener | cancel => exact hi
  | _ => exact nofun

theorem OtherActs.swept (h : OtherActs s s') (hi : Swept s) : Swept s' := by
  cases h <;> exact hi

theorem Acts.swept (h : Acts s pc s' pc') (hi : Swept s) : Swept s' := by
  cases h with
  | control c n n' ch g _ hn =>
      have hf := effect_frame c n s g
      refine hi.mono ?_ (fun d hd => hf.connections ▸ hd) hf.closed
      rcases effect_cases c n { s with negotiation := g } with heq | heq | heq
      all_goals rw [heq]
      rfl
  | untrack c => exact hi.mono rfl (fun d hd => (List.mem_filter.mp hd).1) fun _ h => h
  | _ => exact hi

theorem swept (h : (system limit).Reachable w) : Swept w.shared := by
  refine system_invariant (I := fun w => Swept w.shared) nofun ?_ ?_ ?_ h
  · exact fun s thr t s' pc _ hi ha => ha.swept hi
  · exact fun s thr p s' hr hi hp ha => ha.swept hp (tracking hr) (staged hr) hi
  · exact fun s thr s' _ hi ha => ha.swept hi

/-! ### Nothing is left -/

theorem Pc.live_of_slot (h : pc.slot = true) : pc.live = true := by
  cases pc <;> first | rfl | cases h

theorem Pc.live_of_conn {c : ConnId} (h : pc.conn = some c) : pc.live = true := by
  cases pc <;> first | rfl | cases h

theorem Pc.live_of_opens {c : ConnId} (h : pc.opens = some c) : pc.live = true := by
  cases pc <;> first | rfl | cases h

/-- Once `b.wg.Wait` has returned no goroutine is left, and none will start. -/
theorem waited_gone (h : (system limit).Reachable w) (hm : w.shared.main.waited = true) :
    (∀ t, (w.thr t).live = false) ∧ w.shared.started = [] := by
  obtain ⟨k, hk, hwg⟩ := (counts h).wg
  have hwaited := (staged h).waited hm
  refine ⟨fun t => ?_, List.length_eq_zero_iff.mp (by omega)⟩
  by_contra hne
  have hpos := hk.pos (Bool.of_not_eq_false hne)
  omega

/-- **Nothing is left.**  When `run` returns, no `handle` goroutine is left and none will run, every
connection that it has accepted is closed and the map is empty, all slots are free, and the tunnel,
the listener and the context are done with. -/
theorem returned_clean (h : (system limit).Reachable w) (hr : w.shared.main = .returned) :
    (∀ t, (w.thr t).live = false) ∧ w.shared.started = [] ∧
      (∀ c, c < w.shared.accepted → w.shared.upstreamClosed c = true) ∧
      w.shared.connections = [] ∧ w.shared.slots = 0 ∧
      (w.shared.connected = true → w.shared.closed = true) ∧
      (w.shared.listening = true → w.shared.listenerClosed = true) ∧
      w.shared.ctxDone = true := by
  have ht := tracking h
  have hs := staged h
  obtain ⟨n, hn, hslots⟩ := (counts h).slots
  obtain ⟨hlive, hstarted⟩ := waited_gone h (by rw [hr]; rfl)
  rw [hr] at hslots
  have hdead : ∀ t, (w.thr t).live ≠ true := fun t => by simp [hlive t]
  have hnone : n = 0 := by
    by_contra hne
    obtain ⟨t, hslot⟩ := hn.exists_of_pos (Nat.pos_of_ne_zero hne)
    exact hdead t (Pc.live_of_slot hslot)
  refine ⟨hlive, hstarted, fun c hc => ?_, ?_, ?_, (hs.ends (by rw [hr]; rfl)).1,
    (hs.ends (by rw [hr]; rfl)).2, hs.cancelled hr⟩
  · rcases ht.closed c hc with hcl | hst | ⟨t, hopen⟩ | hhand
    · exact hcl
    · rw [hstarted] at hst
      cases hst
    · exact absurd (Pc.live_of_opens hopen) (hdead t)
    · rw [hr] at hhand
      cases hhand
  · refine List.eq_nil_iff_forall_not_mem.mpr fun c hc => ?_
    rcases (ht.tracked c).mp hc with hst | ⟨t, hc⟩ | htr
    · rw [hstarted] at hst
      cases hst
    · exact absurd (Pc.live_of_conn hc) (hdead t)
    · rw [hr] at htr
      cases htr
  · rw [hslots, hstarted, hnone]
    rfl

/-- `run` goes on. -/
def mains (n : ℕ) : List (Label Choice Env) := List.replicate n (.env (.main true))

/-- A client connects, a signal arrives, and `shutdown` waits for the goroutine of the client. -/
def signalScript : List (Label Choice Env) :=
  mains 8 ++ [.thread 0 (.start 0), .env .signal, .env .watcher, .env (.main false)] ++ mains 5

/-- The goroutine finds its connection closed, and `run` returns. -/
def quitScript : List (Label Choice Env) :=
  [.thread 0 (.control .ok), .thread 0 (.control .fail), .thread 0 (.control .ok),
    .thread 0 .go, .thread 0 .go, .thread 0 .go] ++ mains 3

theorem start_reachable : (system limit).Reachable start := .init rfl

theorem returned_clean_signal :
    ∃ w, (system 1).exec (fun _ _ => True) start (signalScript ++ quitScript) = some w ∧
      w.shared.accepted = 1 ∧ w.shared.upstreamClosed 0 = true ∧ w.shared.connections = [] ∧
      w.shared.slots = 0 := by
  have hrun : ((system 1).exec (fun _ _ => True) start (signalScript ++ quitScript)).map
      (fun w => decide (w.shared.main = .returned ∧ w.shared.accepted = 1)) = some true := by
    decide +kernel
  obtain ⟨w, hw, he⟩ := Option.map_eq_some_iff.mp hrun
  obtain ⟨hreturned, haccepted⟩ := of_decide_eq_true he
  obtain ⟨_, _, hclosed, hmap, hslots, _⟩ := returned_clean (start_reachable.exec hw) hreturned
  exact ⟨w, hw, haccepted, hclosed 0 (by omega), hmap, hslots⟩

end DahuaP2p.Life
