import DahuaP2p.BridgeProcess
import DahuaP2p.BridgeRealms

/-! # The models of the bridge and the process

`BridgeProcess` has the whole bridge.  Every run of it is a run of `Serve`, and so of `Tunnel`, if
one forgets the context and the connections (`serveOf`); and one of `Life` if one forgets the
inside of the tunnel (`lifeOf`).  So what is proved in these models holds for the process
(`refines`).

* For `Life` the tunnel is closed from the moment its socket is, which is where `Close` lets go of
  `t.mu`; a `Close` that does not get there has not closed it.
* A goroutine of the tunnel that is about to run the callback is counted in `firing`, `run` is at
  its `callback` and a `handle` at `fire`. -/

namespace DahuaP2p.Process

open Threads
open Life (ConnId MainPc)
open Tunnel (Time)

variable {limit : ℕ} {cfg : Serve.Config} {s s' : Shared} {pc pc' : Pc} {w : World Shared Pc}
  {t : ℕ} {tn : Tunnel.Shared} {p p' : Tunnel.Pc}

/-! ### The view of a step -/

theorem callsBack_of_not_notifying (h : p.notifying = false) : callsBack p = false := by
  cases p with
  | close q k =>
      cases q with
      | callback => cases h
      | _ => rfl
  | _ => rfl

/-- A step that changes nothing for `Life`, apart from what the callback does. -/
theorem stepped_view (hview : tn.view = s.tunnel.view) (hnow : tn.now = s.tunnel.now)
    (p : Tunnel.Pc) :
    (s.stepped p tn).view =
      if callsBack p then { s.view with ctxDone := true } else s.view := by
  unfold Shared.stepped
  split
  · simp only [Shared.view, Shared.cancel, hview, hnow]
  · simp only [Shared.view, hview, hnow]

theorem stepped_view_same (hview : tn.view = s.tunnel.view) (hnow : tn.now = s.tunnel.now)
    (hp : callsBack p = false) : (s.stepped p tn).view = s.view := by
  rw [stepped_view hview hnow, hp]
  rfl

/-- What `run` does outside of the methods of the tunnel is nothing to the tunnel. -/
theorem stepMain_view {m : MainPc} {ok : Bool} {b : Life.Shared} (hcloses : closes m = false)
    (hset : m ≠ .setOnClose) (h : Life.stepMain limit { s.view with main := m } ok = some b) :
    ({ s with bridge := b } : Shared).view = b := by
  have ha : Life.MainActs limit { s.view with main := m } m b := Life.stepMain_acts h
  cases ha with
  | alreadyClosed | install => exact absurd rfl hset
  | closeUnused | closeClient => cases hcloses
  | _ => rfl

/-- What a `handle` does outside of the methods of the tunnel is nothing to the tunnel. -/
theorem effect_view {c : ConnId} {n : Negotiation.Pc} {g : Negotiation.Shared}
    (hnow : g.now = s.view.negotiation.now) :
    ({ s with bridge := Life.effect c n { s.view with negotiation := g } } : Shared).view =
      Life.effect c n { s.view with negotiation := g } := by
  have hclock : { g with now := s.tunnel.now / 1000000 } = g := by
    cases g
    cases hnow
    rfl
  rcases Life.effect_cases c n { s.view with negotiation := g } with heq | heq | heq <;> rw [heq]
  all_goals
    simp only [Shared.view, Life.closeConn, hclock]

/-! ### `Serve` -/

/-- Where `Serve` has `run`. -/
def servePc : MainPc → Tunnel.Pc → Serve.ServePc
  | m, .idle =>
      match m with
      | .select _ => .select
      | .closeUnused | .closeClient => .shutdown
      | .callback .quit | .callback .shutdown | .snapshot | .closing _ | .wait => .wait
      | .closeListener | .cancel | .returned => .returned
      | _ => .accept
  | _, p => .closing p

def Pc.serve : Pc → Serve.Pc
  | .tunnel p => .tunnel p
  | .run m p => .serve (servePc m p)
  | .handle _ n device p => .handle n device p
  | .dialTimeout _ f => .dialTimeout f
  | .release device => .handle .returned device .idle
  | .done => .released
  | .gone => .tunnel .idle

/-- The place of `run`. -/
def Pc.main : Pc → MainPc
  | .run m _ => m
  | _ => .returned

/-- In `Serve` a connection is accepted in one step. -/
def serveShared (s : Shared) (m : MainPc) : Serve.Shared where
  tunnel := s.tunnel
  negotiation := s.view.negotiation
  slots := s.bridge.slots
  started := s.bridge.started.length + m.slot
  wg := s.bridge.wg + (m.slot - m.added)

def serveOf (w : World Shared Pc) : World Serve.Shared Serve.Pc :=
  ⟨serveShared w.shared (w.thr 2).main, fun t => (w.thr t).serve⟩

theorem servePc_inside {m : MainPc} (hp : p ≠ .idle) : servePc m p = .closing p := by
  cases p with
  | idle => exact absurd rfl hp
  | _ => rfl

theorem resume_serve (c : ConnId) (device : Option Tunnel.ConnId) (p : Tunnel.Pc)
    (n : Negotiation.Pc) : (resume c device p n).serve = Serve.resume device p n := by
  cases n with
  | realm q f =>
      cases q with
      | dial =>
          cases p with
          | dial d =>
              cases d with
              | ret r =>
                  cases r with
                  | ok => rfl
                  | error e => cases e <;> rfl
              | _ => rfl
          | _ => rfl
      | _ => rfl
  | _ => rfl

theorem serveShared_tunnel (hnow : tn.now = s.tunnel.now) (m : MainPc) :
    serveShared { s with tunnel := tn } m = { serveShared s m with tunnel := tn } := by
  simp only [serveShared, Shared.view, hnow]

theorem serveShared_stepped (hnow : tn.now = s.tunnel.now) (m : MainPc) (p : Tunnel.Pc) :
    serveShared (s.stepped p tn) m = { serveShared s m with tunnel := tn } := by
  unfold Shared.stepped
  split <;> simp only [serveShared, Shared.view, Shared.cancel, hnow]

theorem next_now {ch : Tunnel.Choice} (h : Tunnel.next s.tunnel p ch = some (tn, p')) :
    tn.now = s.tunnel.now :=
  (Tunnel.next_cases h).now_eq

/-- One step of a goroutine for `Serve`, while `run` is at `m`. -/
def Serves (cfg : Serve.Config) (m : MainPc) (s : Shared) (pc : Pc) (s' : Shared) (pc' : Pc) :
    Prop :=
  serveShared s' m = serveShared s m ∧ pc'.serve = pc.serve ∨
    ∃ ch, Serve.next cfg (serveShared s m) pc.serve ch = some (serveShared s' m, pc'.serve)

/-- A step in a method of the tunnel. -/
theorem inTunnel_serve {ch : Tunnel.Choice} (k : Tunnel.Pc → Serve.Pc) (m : MainPc)
    (h : Tunnel.next s.tunnel p ch = some (tn, p')) :
    Serve.inTunnel (serveShared s m) p ch k = some ({ serveShared s m with tunnel := tn }, k p') :=
  Serve.inTunnel_eq_some.mpr ⟨tn, p', h, rfl, rfl⟩

theorem background_unreserved {ch : Tunnel.Choice} (h : background ch = true) :
    Serve.reserved ch = false := by
  cases ch with
  | call k =>
      cases k with
      | dial | connClose => cases h
      | _ => rfl
  | _ => rfl

theorem beforeCall_serve (c : ConnId) (n : Negotiation.Pc) (s : Shared) (m : MainPc) :
    serveShared (beforeCall c n s) m = serveShared s m := by
  unfold beforeCall
  split <;> rfl

theorem effect_serve {c : ConnId} {n : Negotiation.Pc} {g : Negotiation.Shared} (m : MainPc)
    (hnow : g.now = s.view.negotiation.now) :
    serveShared { s with bridge := Life.effect c n { s.view with negotiation := g } } m =
      { serveShared s m with negotiation := g } := by
  have hview := effect_view (c := c) (n := n) hnow
  simp only [serveShared, hview]
  rcases Life.effect_cases c n { s.view with negotiation := g } with heq | heq | heq <;> rw [heq]
  all_goals rfl

/-- A `handle` inside a method, or one that returns from it. -/
theorem stepHandle_serve {n : Negotiation.Pc} {device : Option Tunnel.ConnId}
    {ch : Tunnel.Choice} (m : MainPc) (hidle : p ≠ .idle)
    (h : Tunnel.next s.tunnel p ch = some (tn, p')) :
    Serve.next cfg (serveShared s m) (.handle n device p) (.tunnel ch) =
      some ({ serveShared s m with tunnel := tn },
        if p' = .idle then Serve.resume device p n else .handle n device p') := by
  cases p with
  | idle => exact absurd rfl hidle
  | _ =>
      simp only [Serve.next, Serve.stepHandle]
      rw [inTunnel_serve _ m h]
      cases p' <;> rfl

/-- **One step** of a goroutine other than `run` is one of `Serve`, or nothing there. -/
theorem Acts.serves (h : Acts limit s pc s' pc') (hrun : pc.isRun = false)
    (hdone : pc = .done → s.bridge.wg ≠ 0) (m : MainPc) : Serves cfg m s pc s' pc' := by
  cases h with
  | tunnel p p' ch tn hback hn =>
      refine .inr ⟨.tunnel ch, ?_⟩
      rw [serveShared_stepped (next_now hn)]
      exact (if_neg (by simp [background_unreserved hback])).trans (inTunnel_serve .tunnel m hn)
  | start c hc =>
      refine .inr ⟨.go, ?_⟩
      have hlen := List.length_erase_of_mem hc
      have hpos := List.length_pos_of_mem hc
      have hstarted : (serveShared s m).started ≠ 0 := by
        simp only [serveShared]
        omega
      refine (if_neg hstarted).trans ?_
      simp only [serveShared, hlen, Shared.view]
      congr 3
      omega
  | call c n device k p' tn hcalls hn =>
      refine .inr ⟨.tunnel (.call k), ?_⟩
      have hnow : tn.now = (beforeCall c n s).tunnel.now := by
        rw [beforeCall_tunnel]
        exact next_now hn
      rw [serveShared_tunnel hnow, beforeCall_serve]
      exact (if_pos hcalls).trans (inTunnel_serve (.handle n device) m hn)
  | inside c n device p p' ch tn hidle hidle' hn =>
      refine .inr ⟨.tunnel ch, ?_⟩
      rw [serveShared_stepped (next_now hn)]
      refine (stepHandle_serve m hidle hn).trans ?_
      rw [if_neg hidle']
      rfl
  | ret c n device p ch tn hidle hn =>
      refine .inr ⟨.tunnel ch, ?_⟩
      rw [serveShared_stepped (next_now hn), resume_serve]
      refine (stepHandle_serve m hidle hn).trans ?_
      rw [if_pos rfl]
  | control c n n' device ch g hmust _ _ hn =>
      refine .inr ⟨.control ch, ?_⟩
      rw [effect_serve m (Negotiation.next_now hn)]
      refine (if_neg (by simp [hmust])).trans ?_
      simp only [serveShared, hn, Option.map_some, Pc.serve]
  | untrack => exact .inl ⟨rfl, rfl⟩
  | silent c f hsilent =>
      exact .inr ⟨.go, if_pos hsilent⟩
  | retire c f tn hheard hfailures hn =>
      refine .inr ⟨.go, ?_⟩
      rw [serveShared_tunnel (next_now hn)]
      exact (if_neg hheard).trans ((if_pos hfailures).trans (inTunnel_serve _ m hn))
  | giveUp c f hheard hfew =>
      exact .inr ⟨.go, (if_neg hheard).trans (if_neg hfew)⟩
  | release device hslots =>
      exact .inr ⟨.go, if_neg hslots⟩
  | done =>
      have hpos := hdone rfl
      refine .inr ⟨.go, ?_⟩
      simp only [Pc.serve, Serve.next, serveShared, Shared.view]
      congr 3
      omega
  | setOnClose | close | main | closing | closed => cases hrun

/-- What `run` does by itself, for `Serve`. -/
theorem stepMain_serve {m : MainPc} {ok : Bool} {b : Life.Shared} (hcloses : closes m = false)
    (hset : m ≠ .setOnClose) (hconnect : m ≠ .connect)
    (hwg : m.early = true → s.bridge.wg = 0)
    (h : Life.stepMain (Serve.connectionLimit cfg) { s.view with main := m } ok = some b) :
    serveShared { s with bridge := b } b.main = serveShared s m ∧
        servePc b.main .idle = servePc m .idle ∨
      ∃ ch, Serve.stepServe cfg (serveShared s m) (servePc m .idle) ch =
        some (serveShared { s with bridge := b } b.main, .serve (servePc b.main .idle)) := by
  cases m with
  | connect => exact absurd rfl hconnect
  | setOnClose => exact absurd rfl hset
  | closeUnused | closeClient => cases hcloses
  | callback r =>
      cases ok with
      | false => cases h
      | true =>
          cases h
          cases r with
          | listen | shutdown => exact .inl ⟨rfl, rfl⟩
          | quit => exact .inr ⟨.go, if_pos (hwg rfl)⟩
  | listen =>
      cases ok with
      | true =>
          cases h
          exact .inl ⟨rfl, rfl⟩
      | false =>
          cases h
          exact .inr ⟨.fail, rfl⟩
  | accept =>
      cases ok with
      | true =>
          obtain ⟨_, h⟩ := Option.ite_none_left_eq_some.mp h
          cases h
          exact .inr ⟨.go, rfl⟩
      | false =>
          cases h
          exact .inr ⟨.fail, rfl⟩
  | select c =>
      cases ok with
      | true =>
          simp only [Life.stepMain] at h
          split at h
          · next hfree =>
              cases h
              exact .inr ⟨.go, if_pos hfree⟩
          · next hfull =>
              cases h
              exact .inr ⟨.go, if_neg hfull⟩
      | false => cases h
  | track c | add c | spawn c | reject c | snapshot | closeListener | cancel =>
      cases ok with
      | true =>
          cases h
          exact .inl ⟨rfl, rfl⟩
      | false => cases h
  | closing rest =>
      cases ok with
      | true =>
          cases rest <;> cases h <;> exact .inl ⟨rfl, rfl⟩
      | false => cases rest <;> cases h
  | wait =>
      cases ok with
      | true =>
          obtain ⟨hnone, h⟩ := Option.ite_none_right_eq_some.mp h
          cases h
          exact .inr ⟨.go, if_pos hnone⟩
      | false => cases h
  | returned => cases h

/-- A goroutine that does nothing. -/
theorem serve_idle {x : World Serve.Shared Serve.Pc} (h : (Serve.system cfg).Reachable x) :
    ∃ t, x.thr t = .tunnel .idle := by
  have hinit : ∀ y, Serve.Init y → ∃ n, ∀ t, n ≤ t → y.thr t = .tunnel .idle := by
    rintro y ⟨now, session, _, rfl⟩
    refine ⟨3, fun t ht => ?_⟩
    obtain ⟨k, rfl⟩ := Nat.exists_eq_add_of_le' ht
    rfl
  obtain ⟨n, hn⟩ := eventually_idle hinit h
  exact ⟨n, hn n le_rfl⟩

section run
variable {m : MainPc}

theorem serveOf_run (w : World Shared Pc) (s : Shared) (m : MainPc) (p : Tunnel.Pc) :
    serveOf ⟨s, Function.update w.thr 2 (.run m p)⟩ =
      ⟨serveShared s m, Function.update (serveOf w).thr 2 (.serve (servePc m p))⟩ := by
  simp only [serveOf, Function.update_self]
  congr 1
  exact Function.comp_update Pc.serve w.thr 2 (.run m p)

/-- A step of `serve`. -/
theorem serve_run {x : World Serve.Shared Serve.Pc} {g : Serve.Shared} {q q' : Serve.ServePc}
    {ch : Serve.Choice} (h : (Serve.system cfg).Reachable x) (hq : x.thr 2 = .serve q)
    (hn : Serve.stepServe cfg x.shared q ch = some (g, .serve q')) :
    (Serve.system cfg).Reachable ⟨g, Function.update x.thr 2 (.serve q')⟩ := by
  have hstep : Serve.next cfg x.shared (x.thr 2) ch = some (g, .serve q') := by
    rw [hq]
    exact hn
  exact Serve.reachable_thread h hstep

/-- `b.client.Close` runs, or returns. -/
theorem closing_serve {ch : Tunnel.Choice} (cfg : Serve.Config) (m : MainPc)
    (h : Tunnel.next s.tunnel p ch = some (tn, p')) :
    Serve.stepServe cfg (serveShared s m) (.closing p) (.tunnel ch) =
      some ({ serveShared s m with tunnel := tn },
        .serve (if p' = .idle then .wait else .closing p')) := by
  simp only [Serve.stepServe]
  rw [inTunnel_serve _ m h]
  cases p' <;> rfl

theorem serveOf_shared (hthr : w.thr 2 = .run m p) :
    (serveOf w).shared = serveShared w.shared m := by
  simp only [serveOf, hthr, Pc.main]

theorem serveOf_main (hthr : w.thr 2 = .run m p) :
    (serveOf w).thr 2 = .serve (servePc m p) := by
  simp only [serveOf, hthr, Pc.serve]

/-- In `Serve` it is one of the other goroutines that calls `SetOnClose`. -/
theorem setOnClose_serve (hthr : w.thr 2 = .run .setOnClose .idle)
    (h : Tunnel.next w.shared.tunnel .idle (.call .setOnClose) = some (tn, p'))
    (hr : (Serve.system cfg).Reachable (serveOf w)) (b : Bool) :
    (Serve.system cfg).Reachable (serveOf ⟨{ w.shared with tunnel := tn }, Function.update w.thr 2
      (.run (if b then .callback .listen else .listen) .idle)⟩) := by
  obtain ⟨t, ht⟩ := serve_idle hr
  obtain rfl := Tunnel.setOnClose_idle h
  have hstep : Serve.next cfg (serveOf w).shared ((serveOf w).thr t)
      (.tunnel (.call .setOnClose)) =
      some ({ serveShared w.shared .setOnClose with tunnel := tn }, .tunnel .idle) := by
    rw [ht, serveOf_shared hthr]
    exact inTunnel_serve .tunnel _ h
  have hnext := Serve.reachable_thread hr hstep
  rw [← ht, Function.update_eq_self] at hnext
  have hupdate : Function.update (serveOf w).thr 2 (.serve .accept) = (serveOf w).thr := by
    rw [Function.update_eq_self_iff]
    exact (serveOf_main hthr).symm
  rw [serveOf_run, serveShared_tunnel (next_now h)]
  have hsame : servePc (if b then .callback .listen else .listen) .idle = .accept := by
    cases b <;> rfl
  rw [hsame, hupdate]
  cases b <;> exact hnext

/-- `b.client.Close` returns.  Before the first connection there is nothing to wait for then. -/
theorem closed_serve {ch : Tunnel.Choice} (hthr : w.thr 2 = .run m p) (hidle : p ≠ .idle)
    (hcloses : closes m = true) (hwg : m.early = true → w.shared.bridge.wg = 0)
    (h : Tunnel.next w.shared.tunnel p ch = some (tn, .idle))
    (hr : (Serve.system cfg).Reachable (serveOf w)) :
    (Serve.system cfg).Reachable (serveOf
      ⟨w.shared.stepped p tn, Function.update w.thr 2 (.run (resumption m).pc .idle)⟩) := by
  have hserve := serveOf_main hthr
  rw [servePc_inside hidle] at hserve
  have hstep := closing_serve cfg m h
  rw [if_pos rfl, ← serveOf_shared hthr] at hstep
  have hwait := serve_run hr hserve hstep
  rw [serveOf_shared hthr] at hwait
  rw [serveOf_run, serveShared_stepped (next_now h)]
  cases m with
  | closeClient => exact hwait
  | closeUnused =>
      have hgo : Serve.stepServe cfg { serveShared w.shared .closeUnused with tunnel := tn }
          .wait .go = some ({ serveShared w.shared .closeUnused with tunnel := tn },
            .serve .returned) := if_pos (hwg rfl)
      have hreturned := serve_run hwait (by simp only [Function.update_self]) hgo
      rw [Function.update_idem] at hreturned
      exact hreturned
  | _ => cases hcloses

/-- **One step** of `run` is one of `Serve`, two, or nothing there. -/
theorem Acts.serves_run (h : Acts (Serve.connectionLimit cfg) w.shared (.run m p) s pc)
    (hthr : w.thr 2 = .run m p) (hfits : (Pc.run m p).Fits) (hconnect : m ≠ .connect)
    (hwg : m.early = true → w.shared.bridge.wg = 0)
    (hr : (Serve.system cfg).Reachable (serveOf w)) :
    (Serve.system cfg).Reachable (serveOf ⟨s, Function.update w.thr 2 pc⟩) := by
  have hmain := serveOf_shared hthr
  have hserve := serveOf_main hthr
  cases h with
  | setOnClose p' tn hn => exact setOnClose_serve hthr hn hr _
  | close _ hcloses =>
      have hshutdown : servePc m .idle = .shutdown := by
        cases m with
        | closeUnused | closeClient => rfl
        | _ => cases hcloses
      rw [hshutdown] at hserve
      have hgo : Serve.stepServe cfg (serveOf w).shared .shutdown .go =
          some ((serveOf w).shared, .serve (.closing (.close .enter .user))) := rfl
      rw [serveOf_run, ← hmain]
      exact serve_run hr hserve hgo
  | main _ ok b hcloses hset hb =>
      rw [serveOf_run]
      rcases stepMain_serve hcloses hset hconnect hwg hb with ⟨hs, hq⟩ | ⟨ch, hn⟩
      · rw [hs, hq, ← hmain, ← hserve, Function.update_eq_self]
        exact hr
      · rw [← hmain] at hn
        exact serve_run hr hserve hn
  | closing _ _ p' ch tn hidle hidle' hn =>
      have hstep := closing_serve cfg m hn
      rw [if_neg hidle', ← hmain] at hstep
      rw [servePc_inside hidle] at hserve
      rw [serveOf_run, serveShared_stepped (next_now hn), servePc_inside hidle', ← hmain]
      exact serve_run hr hserve hstep
  | closed _ _ ch tn hidle hn =>
      exact closed_serve hthr hidle (hfits.resolve_left hidle).1 hwg hn hr

end run

/-! ### `Life` -/

/-- Where `Life` has `run`. -/
def Pc.lifeMain : Pc → MainPc
  | .run m (.close (.callback installed) _) =>
      if installed then .callback (resumption m) else (resumption m).pc
  | .run m _ => m
  | _ => .returned

/-- Where `Life` has a `handle`.  In `copyBoth` the connection of the client is closed once the one
of the device is being closed. -/
def lifePc (c : ConnId) : Negotiation.Pc → Tunnel.Pc → Life.Pc
  | .realm .dial f, .close (.callback installed) _ =>
      if installed then .fire c f else .handle c (.realm (.once .dialError) f)
  | .realm .copyBoth f, p => .handle c (.realm (if p = .idle then .copyBoth else .closeDevice) f)
  | n, _ => .handle c n

def Pc.life : Pc → Life.Pc
  | .tunnel _ | .run _ _ => .idle
  | .handle c n _ p => lifePc c n p
  | .dialTimeout c f => .handle c (.realm .dial f)
  | .release _ => .release
  | .done => .done
  | .gone => .gone

def lifeShared (s : Shared) (m : MainPc) (firing : ℕ) : Life.Shared :=
  { s.view with main := m, firing := firing }

def lifeOf (firing : ℕ) (w : World Shared Pc) : World Life.Shared Life.Pc :=
  ⟨lifeShared w.shared (w.thr 2).lifeMain firing, fun t => (w.thr t).life⟩

/-- A goroutine of the tunnel is about to run the callback. -/
def Pc.fires : Pc → Bool
  | .tunnel p => callsBack p
  | _ => false

/-- Where the goroutine is inside the tunnel. -/
def Pc.inside : Pc → Tunnel.Pc
  | .tunnel p | .run _ p | .handle _ _ _ p => p
  | _ => .idle

section handle
variable {c : ConnId} {k : Negotiation.Pc} {device : Option Tunnel.ConnId} {m : MainPc} {n : ℕ}

theorem lifePc_idle : lifePc c k .idle = .handle c k := by
  cases k with
  | realm q f => cases q <;> rfl
  | _ => rfl

theorem lifePc_live (c : ConnId) (k : Negotiation.Pc) (p : Tunnel.Pc) :
    (lifePc c k p).live = true := by
  unfold lifePc
  split
  · split <;> rfl
  all_goals rfl

theorem lifeShared_of_view (h : s'.view = s.view) (m : MainPc) (n : ℕ) :
    lifeShared s' m n = lifeShared s m n := by
  simp only [lifeShared, h]

theorem lifePc_dial {f : Bool} (hnot : p.notifying = false) :
    lifePc c (.realm .dial f) p = .handle c (.realm .dial f) := by
  cases p with
  | close q j =>
      cases q with
      | callback => cases hnot
      | _ => rfl
  | _ => rfl

/-- A goroutine that stays in its method, and is not about to run the callback. -/
theorem lifePc_inside (hidle : p ≠ .idle) (hidle' : p' ≠ .idle) (hnot : p.notifying = false)
    (hnot' : p'.notifying = false) : lifePc c k p' = lifePc c k p := by
  cases k with
  | realm q f =>
      cases q with
      | dial => rw [lifePc_dial hnot, lifePc_dial hnot']
      | copyBoth => simp only [lifePc, if_neg hidle, if_neg hidle']
      | _ => rfl
  | _ => rfl

/-- One step of a goroutine for `Life`, while `run` is at `m`. -/
def Lives (m : MainPc) (n : ℕ) (s : Shared) (pc : Pc) (s' : Shared) (pc' : Pc) : Prop :=
  lifeShared s' m n = lifeShared s m n ∧ pc'.life = pc.life ∨
    ∃ ch, Life.next (lifeShared s m n) pc.life ch = some (lifeShared s' m n, pc'.life)

/-- A call of a `handle` returns. -/
theorem resume_lives (hview : s'.view = s.view) (hnot : p.notifying = false) (hidle : p ≠ .idle) :
    Lives m n s (.handle c k device p) s' (resume c device p k) := by
  have hs := lifeShared_of_view hview m n
  unfold Lives
  rw [hs]
  cases k with
  | realm q f =>
      cases q with
      | dial =>
          cases p with
          | idle => exact absurd rfl hidle
          | dial d =>
              cases d with
              | ret r =>
                  cases r with
                  | ok => exact .inr ⟨.control .ok, rfl⟩
                  | error e =>
                      cases e with
                      | dialTimeout => exact .inl ⟨rfl, rfl⟩
                      | _ => exact .inr ⟨.control .fail, rfl⟩
              | _ => exact .inr ⟨.control .fail, rfl⟩
          | close q j =>
              cases q with
              | callback => cases hnot
              | _ => exact .inr ⟨.control .fail, rfl⟩
          | _ => exact .inr ⟨.control .fail, rfl⟩
      | copyBoth =>
          refine .inl ⟨rfl, ?_⟩
          simp only [Pc.life, lifePc, if_neg hidle]
          rfl
      | closeDevice => exact .inr ⟨.control .ok, rfl⟩
      | _ => exact .inl ⟨rfl, rfl⟩
  | _ => exact .inl ⟨rfl, rfl⟩

theorem notifying_of_closeCall (h : p.closeCall = none) : p.notifying = false := by
  cases p with
  | close => cases h
  | _ => rfl

/-- A `handle` calls a method of the tunnel. -/
theorem call_lives {call : Tunnel.Call} (hcalls : Serve.calls device k call = true)
    (h : Tunnel.next s.tunnel .idle (.call call) = some (tn, p')) :
    Lives m n s (.handle c k device .idle) { beforeCall c k s with tunnel := tn }
      (.handle c k device p') := by
  obtain ⟨_, hnone, hview⟩ := calls_user hcalls h
  have hs : lifeShared { s with tunnel := tn } m n = lifeShared s m n := by
    simp only [lifeShared, Shared.view, hview, next_now h]
  cases k with
  | realm q f =>
      cases q with
      | dial => exact .inl ⟨hs, lifePc_dial (notifying_of_closeCall hnone)⟩
      | copyBoth =>
          cases call with
          | connClose d =>
              obtain ⟨_, he⟩ := Option.ite_none_right_eq_some.mp h
              cases he
              exact .inr ⟨.control .ok, rfl⟩
          | _ => cases hcalls
      | _ => exact .inl ⟨hs, rfl⟩
  | _ => exact .inl ⟨hs, rfl⟩

/-- A `handle` goes on inside a method, or returns from it. -/
theorem inside_lives {ch : Tunnel.Choice} (hidle : p ≠ .idle)
    (h : Tunnel.next s.tunnel p ch = some (tn, p')) (hrole : p.role = .user)
    (hdial : p.closeCall ≠ none → ∃ f, k = .realm .dial f)
    (hopen : ∀ j, p = .close .finish j → s.tunnel.view.closed = false) :
    Lives m n s (.handle c k device p) (s.stepped p tn)
      (if p' = .idle then resume c device p k else .handle c k device p') := by
  have hacts := Tunnel.next_cases h
  have hnow := next_now h
  have hact := hacts.closeAct
  cases hact with
  | keep hview _ hnot hnot' =>
      have hsame := stepped_view_same hview hnow (callsBack_of_not_notifying hnot)
      split
      · exact resume_lives hsame hnot hidle
      · next hidle' =>
          exact .inl ⟨lifeShared_of_view hsame m n, lifePc_inside hidle hidle' hnot hnot'⟩
  | retire | setOnClose => exact absurd rfl hidle
  | enter j _ _ huser =>
      have hj : j = .user := ((hacts.role hidle).resolve_left Tunnel.Pc.noConfusion).trans hrole
      exact absurd (huser hj) hidle
  | again j =>
      cases hrole
      exact resume_lives (stepped_view_same rfl rfl rfl) rfl hidle
  | finish j =>
      obtain ⟨f, rfl⟩ := hdial (Option.some_ne_none _)
      exact .inr ⟨.silent, if_neg (by simp [lifeShared, Shared.view, hopen j rfl])⟩
  | callback j installed hview =>
      obtain ⟨f, rfl⟩ := hdial (Option.some_ne_none _)
      cases hrole
      cases installed with
      | true =>
          refine .inr ⟨.go, ?_⟩
          simp only [lifeShared, stepped_view hview hnow]
          rfl
      | false => exact .inl ⟨lifeShared_of_view (stepped_view_same hview hnow rfl) m n, rfl⟩

theorem effect_lifts (c : ConnId) (k : Negotiation.Pc) (b : Life.Shared) (m : MainPc) (n : ℕ) :
    Life.effect c k { b with main := m, firing := n } =
      { Life.effect c k b with main := m, firing := n } := by
  cases k with
  | realm q f => cases q <;> rfl
  | noRealm =>
      simp only [Life.effect]
      split <;> rfl
  | _ => rfl

/-- A step outside of the methods of the tunnel. -/
theorem control_lives {ch : Negotiation.Choice} {g : Negotiation.Shared} {k' : Negotiation.Pc}
    (hallowed : Life.allowed s.bridge c k ch = true)
    (h : Negotiation.next s.view.negotiation k ch = some (g, k')) :
    Lives m n s (.handle c k device .idle)
      { s with bridge := Life.effect c k { s.view with negotiation := g } }
      (.handle c k' device .idle) := by
  refine .inr ⟨.control ch, ?_⟩
  simp only [Pc.life, lifePc_idle, lifeShared]
  rw [effect_view (Negotiation.next_now h), ← effect_lifts]
  refine (if_pos hallowed).trans ?_
  rw [h]
  rfl

/-- **One step** of a goroutine other than `run` and those of the tunnel is one of `Life`, or
nothing there. -/
theorem Acts.lives (h : Acts limit s pc s' pc') (hfits : pc.Fits)
    (hopen : ∀ j, pc.inside = .close .finish j → s.tunnel.view.closed = false)
    (hrun : pc.isRun = false) (hown : ∀ q, pc' ≠ .tunnel q) (m : MainPc) (n : ℕ) :
    Lives m n s pc s' pc' := by
  cases h with
  | tunnel => exact absurd rfl (hown _)
  | start c hc => exact .inr ⟨.start c, if_pos hc⟩
  | setOnClose | close | main | closing | closed => cases hrun
  | call c k device call p' tn hcalls hn => exact call_lives hcalls hn
  | inside c k device p p' ch tn hidle hidle' hn =>
      have hl : Lives m n s (.handle c k device p) _ _ :=
        inside_lives hidle hn hfits.1 hfits.2 hopen
      rw [if_neg hidle'] at hl
      exact hl
  | ret c k device p ch tn hidle hn =>
      have hl : Lives m n s (.handle c k device p) _ _ :=
        inside_lives hidle hn hfits.1 hfits.2 hopen
      rw [if_pos rfl] at hl
      exact hl
  | control c k k' device ch g _ _ hallowed hn => exact control_lives hallowed hn
  | untrack c device => exact .inr ⟨.go, rfl⟩
  | silent c f => exact .inl ⟨rfl, rfl⟩
  | retire c f tn _ _ hn =>
      refine .inr ⟨.retire, ?_⟩
      obtain ⟨_, he⟩ := Option.ite_none_left_eq_some.mp hn
      cases he
      rfl
  | giveUp c f => exact .inr ⟨.control .fail, rfl⟩
  | release device hslots => exact .inr ⟨.go, if_neg hslots⟩
  | done => exact .inr ⟨.go, rfl⟩

end handle

section own
variable {m : MainPc} {n n' : ℕ}

/-- What the ACK timers and the copying goroutines call is nothing to `Life`. -/
theorem background_view {ch : Tunnel.Choice} (hback : background ch = true)
    (h : Tunnel.next s.tunnel .idle ch = some (tn, p')) :
    tn.view = s.tunnel.view ∧ callsBack p' = false := by
  cases ch with
  | call k =>
      cases k with
      | flushACK | read | write =>
          obtain ⟨_, he⟩ := Option.ite_none_right_eq_some.mp h
          cases he
          exact ⟨rfl, rfl⟩
      | _ => cases hback
  | _ => cases h

theorem callsBack_ret (j : Tunnel.CloseCall) : callsBack j.ret = false := by
  cases j <;> rfl

/-- **One step** of a goroutine of the tunnel; `firing` counts those that are about to run the
callback. -/
theorem own_lives {ch : Tunnel.Choice} (hback : background ch = true)
    (h : Tunnel.next s.tunnel p ch = some (tn, p'))
    (hopen : ∀ j, p = .close .finish j → s.tunnel.view.closed = false)
    (hcount : n' + (callsBack p).toNat = n + (callsBack p').toNat) :
    lifeShared (s.stepped p tn) m n' = lifeShared s m n ∨
      ∃ e, Life.stepEnv limit (lifeShared s m n) e = some (lifeShared (s.stepped p tn) m n') := by
  have hnow := next_now h
  -- for `Life` nothing has happened
  have hkeep : tn.view = s.tunnel.view → callsBack p = false → callsBack p' = false →
      lifeShared (s.stepped p tn) m n' = lifeShared s m n := by
    intro hview hp hp'
    rw [hp, hp'] at hcount
    obtain rfl : n' = n := hcount
    exact lifeShared_of_view (stepped_view_same hview hnow hp) m n'
  by_cases hidle : p = .idle
  · subst hidle
    obtain ⟨hview, hp'⟩ := background_view hback h
    exact .inl (hkeep hview rfl hp')
  · have hact := (Tunnel.next_cases h).closeAct
    cases hact with
    | keep hview _ hnot hnot' =>
        exact .inl (hkeep hview (callsBack_of_not_notifying hnot)
          (callsBack_of_not_notifying hnot'))
    | retire | setOnClose => exact absurd rfl hidle
    | enter j hview hnone =>
        exact .inl (hkeep hview (callsBack_of_not_notifying (notifying_of_closeCall hnone)) rfl)
    | again j => exact .inl (hkeep rfl rfl (callsBack_ret j))
    | finish j =>
        refine .inr ⟨.close, ?_⟩
        have hclosed : (lifeShared s m n).closed = false := hopen j rfl
        have hfiring : n' = n + s.tunnel.life.onClose.toNat := by
          cases hon : s.tunnel.life.onClose <;> rw [hon] at hcount <;> exact hcount
        subst hfiring
        refine (if_pos ?_).trans rfl
        rw [hclosed]
        rfl
    | callback j installed hview =>
        rw [callsBack_ret] at hcount
        cases installed with
        | true =>
            refine .inr ⟨.fire, ?_⟩
            obtain rfl : n = n' + 1 := hcount.symm
            simp only [Life.stepEnv, lifeShared, stepped_view hview hnow]
            rfl
        | false => exact .inl (hkeep hview rfl (callsBack_ret j))

end own

section main
variable {m : MainPc} {n : ℕ}

theorem lifeMain_of_not_notifying (h : p.notifying = false) : (Pc.run m p).lifeMain = m := by
  cases p with
  | close q j =>
      cases q with
      | callback => cases h
      | _ => rfl
  | _ => rfl

theorem stepMain_lifts (limit : ℕ) (b : Life.Shared) (ok : Bool) (n : ℕ) :
    Life.stepMain limit { b with firing := n } ok =
      (Life.stepMain limit b ok).map fun b => { b with firing := n } := by
  have hclose : ∀ r, Life.closeClient { b with firing := n } r =
      { Life.closeClient b r with firing := n } := by
    intro r
    unfold Life.closeClient
    split <;> rfl
  unfold Life.stepMain
  dsimp only
  split
  all_goals first
    | rfl
    | exact congrArg some (hclose _)
    | (split <;> rfl)

/-- What `run` does to `Life`. -/
def LivesRun (limit n : ℕ) (s : Shared) (pc : Pc) (s' : Shared) (pc' : Pc) : Prop :=
  lifeShared s' pc'.lifeMain n = lifeShared s pc.lifeMain n ∨
    ∃ ok, Life.stepMain limit (lifeShared s pc.lifeMain n) ok =
      some (lifeShared s' pc'.lifeMain n)

/-- `b.client.Close` runs, or returns. -/
theorem closing_lives {ch : Tunnel.Choice} (hcloses : closes m = true)
    (hcall : p.closeCall = some .user) (h : Tunnel.next s.tunnel p ch = some (tn, p'))
    (hg : Tunnel.Guarded s.tunnel)
    (hopen : ∀ j, p = .close .finish j → s.tunnel.view.closed = false) :
    LivesRun limit n s (.run m p) (s.stepped p tn)
      (if p' = .idle then .run (resumption m).pc .idle else .run m p') := by
  have hnow := next_now h
  have hmain : ∀ b : Life.Shared, b.main = m →
      Life.stepMain limit b true = some (Life.closeClient b (resumption m)) := by
    intro b hb
    cases m with
    | closeUnused | closeClient =>
        unfold Life.stepMain
        rw [hb]
        rfl
    | _ => cases hcloses
  have hact := (Tunnel.next_cases h).closeAct
  cases hact with
  | keep hview hsame hnot hnot' =>
      have hidle' : p' ≠ .idle := by
        rintro rfl
        rw [hcall] at hsame
        cases hsame
      refine .inl ?_
      rw [if_neg hidle', lifeMain_of_not_notifying hnot, lifeMain_of_not_notifying hnot']
      exact lifeShared_of_view
        (stepped_view_same hview hnow (callsBack_of_not_notifying hnot)) m n
  | retire | setOnClose => cases hcall
  | enter _ _ hnone =>
      rw [hnone] at hcall
      cases hcall
  | again j hmu hc =>
      cases hcall
      refine .inr ⟨true, ?_⟩
      refine (hmain _ rfl).trans (congrArg some ?_)
      have hclosed : (lifeShared s m n).closed = true := (hg.of_free hmu).symm.trans hc
      exact if_pos hclosed
  | finish j =>
      refine .inr ⟨true, ?_⟩
      refine (hmain _ rfl).trans (congrArg some ?_)
      have hclosed : ¬ (lifeShared s m n).closed = true := by
        rw [show (lifeShared s m n).closed = false from hopen j rfl]
        exact Bool.false_ne_true
      exact if_neg hclosed
  | callback j installed hview =>
      cases hcall
      cases installed with
      | true =>
          refine .inr ⟨true, ?_⟩
          simp only [lifeShared, stepped_view hview hnow]
          rfl
      | false =>
          exact .inl (lifeShared_of_view (stepped_view_same hview hnow rfl) (resumption m).pc n)

/-- `SetOnClose` installs the callback, or finds the tunnel closed. -/
theorem setOnClose_lives (h : Tunnel.next s.tunnel .idle (.call .setOnClose) = some (tn, p'))
    (hg : Tunnel.Guarded s.tunnel) :
    LivesRun limit n s (.run .setOnClose .idle) { s with tunnel := tn }
      (.run (if s.tunnel.life.closed then .callback .listen else .listen) .idle) := by
  have hnow := next_now h
  have hinstalls := Tunnel.simulates_installs hg h
  obtain ⟨hmu, _⟩ := Option.ite_none_left_eq_some.mp h
  rw [hg.of_free (Bool.of_not_eq_true hmu)]
  refine .inr ⟨true, ?_⟩
  cases hclosed : s.tunnel.view.closed with
  | true =>
      rw [if_pos hclosed] at hinstalls
      refine (if_pos hclosed).trans ?_
      simp only [lifeShared, Shared.view, hinstalls.2, hnow]
      rfl
  | false =>
      rw [if_neg (by simp [hclosed])] at hinstalls
      refine (if_neg (by simp [lifeShared, Shared.view, hclosed])).trans ?_
      simp only [lifeShared, Shared.view, hinstalls.2, hnow]
      rfl

/-- **One step** of `run` is one of `Life`, or nothing there. -/
theorem Acts.lives_run (h : Acts limit s (.run m p) s' pc') (hfits : (Pc.run m p).Fits)
    (hg : Tunnel.Guarded s.tunnel)
    (hopen : ∀ j, p = .close .finish j → s.tunnel.view.closed = false) (n : ℕ) :
    LivesRun limit n s (.run m p) s' pc' := by
  cases h with
  | setOnClose p' tn hn => exact setOnClose_lives hn hg
  | close => exact .inl rfl
  | main _ ok b hcloses hset hb =>
      refine .inr ⟨ok, ?_⟩
      have hlift := stepMain_lifts limit { s.view with main := m } ok n
      rw [hb] at hlift
      refine hlift.trans (congrArg some ?_)
      have hview := stepMain_view hcloses hset hb
      simp only [lifeShared, Pc.lifeMain, hview]
  | closing _ _ p' ch tn hidle hidle' hn =>
      obtain ⟨hcloses, hcall⟩ := hfits.resolve_left hidle
      have hl : LivesRun limit n s (.run m p) _ _ := closing_lives hcloses hcall hn hg hopen
      rw [if_neg hidle'] at hl
      exact hl
  | closed _ _ ch tn hidle hn =>
      obtain ⟨hcloses, hcall⟩ := hfits.resolve_left hidle
      have hl : LivesRun limit n s (.run m p) _ _ := closing_lives hcloses hcall hn hg hopen
      rw [if_pos rfl] at hl
      exact hl

/-- A signal, the goroutine that waits for the context, and time. -/
theorem stepEnv_lives {e : Env} (h : stepEnv s e = some s') (m : MainPc) (n : ℕ) :
    ∃ e, Life.stepEnv limit (lifeShared s m n) e = some (lifeShared s' m n) := by
  cases e with
  | watcher =>
      obtain ⟨hw, h⟩ := Option.ite_none_right_eq_some.mp h
      cases h
      exact ⟨.watcher, if_pos hw⟩
  | signal =>
      cases h
      exact ⟨.signal, rfl⟩
  | tick d =>
      cases h
      refine ⟨.tick ((s.tunnel.now + d) / 1000000 - s.tunnel.now / 1000000), ?_⟩
      have hle : s.tunnel.now / 1000000 ≤ (s.tunnel.now + d) / 1000000 :=
        Nat.div_le_div_right (Nat.le_add_right _ d)
      have hclock := Nat.add_sub_cancel' hle
      simp only [Life.stepEnv, lifeShared, Shared.view, Tunnel.Shared.view, hclock]

end main

/-! ### Every run of the process -/

section world
variable {m : MainPc} {n : ℕ}

theorem serve_inside (pc : Pc) : pc.serve.inside = pc.inside := by
  cases pc with
  | run m p =>
      by_cases hp : p = .idle
      · subst hp
        cases m with
        | callback r => cases r <;> rfl
        | _ => rfl
      · simp only [Pc.serve, servePc_inside hp, Serve.Pc.inside, Pc.inside]
  | _ => rfl

/-- What a run of `Serve` says about the lock of the tunnel. -/
theorem guarded_of_serve (h : (Serve.system cfg).Reachable (serveOf w)) :
    Tunnel.Guarded w.shared.tunnel ∧
      ∀ t j, (w.thr t).inside = .close .finish j → w.shared.tunnel.view.closed = false := by
  have hr := Serve.tunnelOf_reachable h
  have hg : Tunnel.Guarded w.shared.tunnel := (Tunnel.guarded hr).1
  refine ⟨hg, fun t j hp => ?_⟩
  have hholds : ((Serve.tunnelOf (serveOf w)).thr t) = .close .finish j :=
    (serve_inside (w.thr t)).trans hp
  have hx := (Tunnel.resource_exclusive hr .mu).not_free (t := t) (by rw [hholds]; rfl)
  have hmu : (Serve.tunnelOf (serveOf w)).shared.locks.mu = true := by
    simpa [Tunnel.Shared.free] using hx
  exact (hg.of_taken hmu).2

theorem serveOf_update (s : Shared) (pc : Pc) (ht : t ≠ 2) :
    serveOf ⟨s, Function.update w.thr t pc⟩ =
      ⟨serveShared s (w.thr 2).main, Function.update (serveOf w).thr t pc.serve⟩ := by
  simp only [serveOf, Function.update_of_ne ht.symm]
  congr 1
  exact Function.comp_update Pc.serve w.thr t pc

theorem lifeOf_update (s : Shared) (pc : Pc) (n : ℕ) (ht : t ≠ 2) :
    lifeOf n ⟨s, Function.update w.thr t pc⟩ =
      ⟨lifeShared s (w.thr 2).lifeMain n, Function.update (fun u => (w.thr u).life) t pc.life⟩ := by
  simp only [lifeOf, Function.update_of_ne ht.symm]
  congr 1
  exact Function.comp_update Pc.life w.thr t pc

theorem lifeOf_run (s : Shared) {pc : Pc} (n : ℕ) (hpc : pc.life = (w.thr 2).life) :
    lifeOf n ⟨s, Function.update w.thr 2 pc⟩ =
      ⟨lifeShared s pc.lifeMain n, fun u => (w.thr u).life⟩ := by
  simp only [lifeOf, Function.update_self]
  congr 1
  refine (Function.comp_update Pc.life w.thr 2 pc).trans ?_
  rw [hpc]
  exact Function.update_eq_self 2 _

end world

/-- The process, seen in both models. -/
structure Refines (cfg : Serve.Config) (w : World Shared Pc) : Prop where
  serve : (Serve.system cfg).Reachable (serveOf w)
  life : ∃ n, Counted (fun pc => Pc.fires pc = true) w.thr n ∧
    (Life.system (Serve.connectionLimit cfg)).Reachable (lifeOf n w)

theorem life_env {l : World Life.Shared Life.Pc} {b : Life.Shared} {e : Life.Env}
    (h : (Life.system limit).Reachable l) (he : Life.stepEnv limit l.shared e = some b) :
    (Life.system limit).Reachable ⟨b, l.thr⟩ :=
  System.Reachable.step h (l := .env e) (interleave_step_env.mpr ⟨b, he, rfl⟩)

theorem life_thread {l : World Life.Shared Life.Pc} {b : Life.Shared} {ch : Life.Choice}
    {q : Life.Pc} (h : (Life.system limit).Reachable l)
    (hn : Life.next l.shared (l.thr t) ch = some (b, q)) :
    (Life.system limit).Reachable ⟨b, Function.update l.thr t q⟩ :=
  System.Reachable.step h (l := .thread t ch) (interleave_step_thread.mpr ⟨b, q, hn, rfl⟩)

theorem start_refines (now : Time) (session : Ptcp.Session) (hnow : 0 < now) :
    Refines cfg (start now session) := by
  refine ⟨.init ⟨now, session, hnow, ?_⟩, 0, .of_none ?_, ?_⟩
  · have hthr : (fun t => (startThreads t).serve) = Serve.startThreads := by
      funext t
      match t with
      | 0 | 1 | 2 | _ + 3 => rfl
    simp only [serveOf, start, hthr]
    rfl
  · exact forall_startThreads (P := fun _ pc => ¬ Pc.fires pc = true) Bool.false_ne_true
      Bool.false_ne_true Bool.false_ne_true fun _ => Bool.false_ne_true
  · have hthr : (fun t => (startThreads t).life) = fun _ => .idle := by
      funext t
      match t with
      | 0 | 1 | 2 | _ + 3 => rfl
    simp only [lifeOf, start, hthr]
    -- time has passed, and `connect` has returned
    have htick : (Life.system (Serve.connectionLimit cfg)).Reachable _ :=
      life_env (e := .tick (now / 1000000)) Life.start_reachable rfl
    have hconnect := life_env (e := .main true) htick rfl
    have hclock : 0 + now / 1000000 = now / 1000000 := Nat.zero_add _
    simp only [Life.start, hclock] at hconnect
    exact hconnect

/-- What `Life` knows about `run`. -/
theorem run_stage {m : MainPc} {n : ℕ} (h : (Life.system limit).Reachable (lifeOf n w))
    (hthr : w.thr 2 = .run m p) (hfits : (Pc.run m p).Fits) :
    m ≠ .connect ∧ (m.early = true → w.shared.bridge.wg = 0) := by
  have hstaged := Life.staged h
  have hmain : (lifeOf n w).shared.main = (Pc.run m p).lifeMain := by
    simp only [lifeOf, lifeShared, hthr]
  cases hnot : p.notifying with
  | false =>
      rw [lifeMain_of_not_notifying hnot] at hmain
      refine ⟨fun hm => ?_, fun hm => (hstaged.early (by rw [hmain]; exact hm)).2.2⟩
      have hconnected : (lifeOf n w).shared.connected = false := hstaged.fresh (hmain.trans hm)
      cases hconnected
  | true =>
      have hidle : p ≠ .idle := by
        rintro rfl
        cases hnot
      obtain ⟨hcloses, _⟩ := hfits.resolve_left hidle
      cases m with
      | closeClient => exact ⟨MainPc.noConfusion, fun hm => Bool.noConfusion hm⟩
      | closeUnused =>
          refine ⟨MainPc.noConfusion, fun _ => ?_⟩
          cases p with
          | close q j =>
              cases q with
              | callback installed =>
                  cases installed with
                  | true => exact (hstaged.early (by rw [hmain]; rfl)).2.2
                  | false => exact hstaged.waited (by rw [hmain]; rfl)
              | _ => cases hnot
          | _ => cases hnot
      | _ => cases hcloses

/-- `run` takes a step. -/
theorem Refines.run (hi : Refines cfg w) (hr : (system cfg).Reachable w)
    (h : Acts (Serve.connectionLimit cfg) w.shared (w.thr 2) s pc) :
    Refines cfg ⟨s, Function.update w.thr 2 pc⟩ := by
  obtain ⟨m, p, hthr⟩ := exists_run hr
  have hfits : (Pc.run m p).Fits := hthr ▸ fits hr 2
  obtain ⟨hserve, n, hcount, hlife⟩ := hi
  obtain ⟨hconnect, hwg⟩ := run_stage hlife hthr hfits
  obtain ⟨hg, hopen⟩ := guarded_of_serve hserve
  have hopen' : ∀ j, p = .close .finish j → w.shared.tunnel.view.closed = false := by
    intro j hj
    exact hopen 2 j (by rw [hthr]; exact hj)
  rw [hthr] at h
  have hrun : pc.isRun = true := h.isRun
  have hpc : pc.life = (w.thr 2).life ∧ Pc.fires pc = Pc.fires (w.thr 2) := by
    rw [hthr]
    cases pc with
    | run => exact ⟨rfl, rfl⟩
    | _ => cases hrun
  refine ⟨h.serves_run hthr hfits hconnect hwg hserve, n, hcount.keep (by rw [hpc.2]), ?_⟩
  rw [lifeOf_run s n hpc.1]
  have hmain : (lifeOf n w).shared = lifeShared w.shared (Pc.run m p).lifeMain n := by
    simp only [lifeOf, hthr]
  rcases h.lives_run hfits hg hopen' n with hsame | ⟨ok, hok⟩
  · rw [hsame, ← hmain]
    exact hlife
  · rw [← hmain] at hok
    exact life_env (e := .main ok) hlife hok

/-- Another goroutine takes a step, in `Serve`. -/
theorem Refines.other_serve (hi : Refines cfg w) (ht : t ≠ 2) (hrun : (w.thr t).isRun = false)
    (h : Acts (Serve.connectionLimit cfg) w.shared (w.thr t) s pc) :
    (Serve.system cfg).Reachable (serveOf ⟨s, Function.update w.thr t pc⟩) := by
  obtain ⟨hserve, n, _, hlife⟩ := hi
  have hdone : w.thr t = .done → w.shared.bridge.wg ≠ 0 := by
    intro hd
    obtain ⟨_, k, hk, hwg⟩ := Life.counts hlife
    have hwg : w.shared.bridge.wg = k + w.shared.bridge.started.length + _ := hwg
    have hpos := hk.pos (t := t) (by simp only [lifeOf, hd]; rfl)
    omega
  rw [serveOf_update s pc ht]
  rcases h.serves hrun hdone (w.thr 2).main with ⟨hs, hpc⟩ | ⟨ch, hn⟩
  · have hsame : Function.update (serveOf w).thr t (w.thr t).serve = (serveOf w).thr :=
      Function.update_eq_self t _
    rw [hs, hpc, hsame]
    exact hserve
  · exact Serve.reachable_thread hserve hn

/-- A step of a goroutine of the tunnel, or one after which the goroutine is none. -/
theorem Acts.own_or (h : Acts limit s pc s' pc') :
    (∃ p p' ch tn, pc = .tunnel p ∧ pc' = .tunnel p' ∧ s' = s.stepped p tn ∧
        background ch = true ∧ Tunnel.next s.tunnel p ch = some (tn, p')) ∨
      (∀ q, pc' ≠ .tunnel q) ∧ pc'.fires = pc.fires := by
  cases h with
  | tunnel p p' ch tn hback hn => exact .inl ⟨p, p', ch, tn, rfl, rfl, rfl, hback, hn⟩
  | ret c n device p =>
      rcases resume_cases c device p n with ⟨n', d, heq⟩ | ⟨f, heq⟩ <;> rw [heq] <;>
        exact .inr ⟨fun _ => Pc.noConfusion, rfl⟩
  | _ => exact .inr ⟨fun _ => Pc.noConfusion, rfl⟩

/-- A goroutine of the tunnel takes a step, in `Life`. -/
theorem own_life {ch : Tunnel.Choice} {n n' : ℕ} (ht : t ≠ 2) (hthr : w.thr t = .tunnel p)
    (hback : background ch = true) (h : Tunnel.next w.shared.tunnel p ch = some (tn, p'))
    (hopen : ∀ j, p = .close .finish j → w.shared.tunnel.view.closed = false)
    (hcount : n' + (callsBack p).toNat = n + (callsBack p').toNat)
    (hlife : (Life.system limit).Reachable (lifeOf n w)) :
    (Life.system limit).Reachable
      (lifeOf n' ⟨w.shared.stepped p tn, Function.update w.thr t (.tunnel p')⟩) := by
  have hsame : Function.update (fun u => (w.thr u).life) t (Pc.tunnel p').life =
      fun u => (w.thr u).life := by
    rw [Function.update_eq_self_iff, hthr]
    rfl
  rw [lifeOf_update _ _ n' ht, hsame]
  rcases own_lives hback h hopen hcount with hs | ⟨e, he⟩
  · rw [hs]
    exact hlife
  · exact life_env hlife he

/-- A goroutine other than `run` takes a step. -/
theorem Refines.other (hi : Refines cfg w) (hr : (system cfg).Reachable w) (ht : t ≠ 2)
    (h : Acts (Serve.connectionLimit cfg) w.shared (w.thr t) s pc) :
    Refines cfg ⟨s, Function.update w.thr t pc⟩ := by
  have hrun : (w.thr t).isRun = false := by
    rw [← Bool.not_eq_true, isRun_iff hr]
    exact ht
  refine ⟨hi.other_serve ht hrun h, ?_⟩
  obtain ⟨hserve, n, hcount, hlife⟩ := hi
  obtain ⟨_, hopen⟩ := guarded_of_serve hserve
  rcases h.own_or with ⟨p, p', ch, tn, hthr, rfl, rfl, hback, hn⟩ | ⟨hown, hfires⟩
  · obtain ⟨n', hcount', hsum⟩ := hcount.update t (.tunnel p')
    rw [hthr] at hsum
    refine ⟨n', hcount', own_life ht hthr hback hn ?_ hsum hlife⟩
    exact fun j hj => hopen t j (by rw [hthr]; exact hj)
  · refine ⟨n, hcount.keep (by rw [hfires]), ?_⟩
    rw [lifeOf_update s pc n ht]
    rcases h.lives (fits hr t) (hopen t) hrun hown (w.thr 2).lifeMain n with
      ⟨hs, hpc⟩ | ⟨ch, hn⟩
    · have hsame : Function.update (fun u => (w.thr u).life) t (w.thr t).life =
          fun u => (w.thr u).life := Function.update_eq_self t _
      rw [hs, hpc, hsame]
      exact hlife
    · exact life_thread hlife hn

/-- A signal, the goroutine that waits for the context, or time. -/
theorem Refines.env {e : Env} (hi : Refines cfg w) (h : stepEnv w.shared e = some s) :
    Refines cfg ⟨s, w.thr⟩ := by
  obtain ⟨hserve, n, hcount, hlife⟩ := hi
  obtain ⟨e', he⟩ := stepEnv_lives h (w.thr 2).lifeMain n
  refine ⟨?_, n, hcount, life_env hlife he⟩
  cases e with
  | watcher =>
      obtain ⟨_, h⟩ := Option.ite_none_right_eq_some.mp h
      cases h
      exact hserve
  | signal =>
      cases h
      exact hserve
  | tick d =>
      cases h
      exact System.Reachable.step hserve (l := .env d) rfl

/-- **Refinement.**  Every run of the process is one of `Serve`, and so of `Tunnel`, and one of
`Life`, where `firing` counts the goroutines of the tunnel that are about to run the callback. -/
theorem refines (h : (system cfg).Reachable w) : Refines cfg w := by
  refine interleave_invariant (I := Refines cfg) ?_ ?_ ?_ h
  · rintro w ⟨now, session, hnow, rfl⟩
    exact start_refines now session hnow
  · intro w t ch s pc hr hi _ hn
    by_cases ht : t = 2
    · subst ht
      exact hi.run hr (next_acts hn)
    · exact hi.other hr ht (next_acts hn)
  · intro w e s _ hi _ he
    exact hi.env he

end DahuaP2p.Process
