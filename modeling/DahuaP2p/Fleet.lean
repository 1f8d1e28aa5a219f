import DahuaP2p.ManagerTunnel

/-! # The session manager over its tunnels

`Manager` has a tunnel as three flags and `Close` as one action, `Tunnel` has one tunnel and no
manager.  Here they run together: the manager's goroutines, and the tunnels with all of theirs.

* **Methods.** Where the manager calls `IsClosed`, `IsRetired`, `SetOnClose` and `Close`, it waits
  for `t.mu` of that tunnel, in the first two with `m.mu` in its hands.  `Close` runs step by step
  as in `Tunnel`.  The callback that `Acquire` installs is `forget`: the goroutine that closes a
  tunnel, maybe its reader, runs it.
* **Callers.** Everybody else may call every method of a tunnel that exists, except `SetOnClose`.
* **The tunnels.** `tunnelOf c` is what tunnel `c` sees of a world.  Every run is a run of each
  tunnel (`tunnelOf_reachable`), so what is proved about a tunnel holds for all of them.  What the
  manager sees is in `FleetManager`. -/

namespace DahuaP2p.Fleet

open Threads
open Manager (ClientId CloseBy)

/-! ### The model -/

structure Shared where
  manager : Manager.Shared
  /-- A `Release` has `m.mu` and is in `IsRetired`. -/
  releasing : Bool
  /-- The tunnels, also those that later handshakes make. -/
  tunnels : ClientId → Tunnel.Shared

inductive Pc where
  | manager (p : Manager.Pc)
  /-- `Release`, in `IsRetired`. -/
  | checking (key : Manager.SessionKey) (c : ClientId) (n : Option Manager.Ticket)
  /-- The reader or the heartbeat of a tunnel. -/
  | own (c : ClientId) (p : Tunnel.Pc)
  /-- Inside a method that a caller of the manager has called, or in an ACK timer. -/
  | user (c : ClientId) (p : Tunnel.Pc)
  /-- Inside `client.Close()`, called by the manager. -/
  | closing (c : ClientId) (p : Tunnel.Pc) (k : CloseBy)
deriving DecidableEq, Repr

inductive Choice where
  | manager (ch : Manager.Choice)
  | tunnel (ch : Tunnel.Choice)
  | method (c : ClientId) (k : Tunnel.Call)
deriving DecidableEq, Repr

/-- What the manager sees of the memory. -/
def Shared.view (s : Shared) : Manager.Shared :=
  { s.manager with tunnels := fun c => (s.tunnels c).view }

/-- Somebody has `m.mu`. -/
def Shared.locked (s : Shared) : Bool := s.manager.mu || s.releasing

def Shared.setTunnel (s : Shared) (c : ClientId) (tn : Tunnel.Shared) : Shared :=
  { s with tunnels := Function.update s.tunnels c tn }

/-- A step inside tunnel `c`. -/
def inTunnel (s : Shared) (c : ClientId) (p : Tunnel.Pc) (ch : Tunnel.Choice) :
    Option (Shared × Tunnel.Pc) :=
  (Tunnel.next (s.tunnels c) p ch).map fun r => (s.setTunnel c r.1, r.2)

/-- A step inside a method of tunnel `c`.  The callback that `Close` runs is `forget`. -/
def inMethod (s : Shared) (c : ClientId) (p : Tunnel.Pc) (ch : Tunnel.Choice) :
    Option (Shared × Tunnel.Pc) :=
  match p with
  | .idle => none
  | .close (.callback true) _ =>
      if s.locked then none
      else (inTunnel s c p ch).map fun r => ({ r.1 with manager := s.manager.forget c }, r.2)
  | p => inTunnel s c p ch

/-- The next action takes `m.mu`. -/
def locks : Manager.Pc → Bool
  | .acquire _ .lock | .acquire _ (.commit _ _) | .acquire _ (.forget _ _ _) => true
  | .release _ _ _ | .timer _ | .closeAll | .forget _ _ => true
  | _ => false

/-- The locks that the action needs are free: `m.mu`, or `t.mu` of the tunnel it looks at. -/
def ready (s : Shared) : Manager.Pc → Bool
  | .acquire _ (.prune (c :: _) _) => !(s.tunnels c).locks.mu
  | .acquire _ (.select (c :: _)) => !(s.tunnels c).locks.mu
  | p => !(locks p && s.releasing)

/-- The manager, where it calls no method that changes a tunnel. -/
def inManager (s : Shared) (p : Manager.Pc) (ch : Manager.Choice) : Option (Shared × Pc) :=
  if ready s p then
    (Manager.next s.view p ch).map fun r => ({ s with manager := r.1 }, .manager r.2)
  else none

def stepManager (s : Shared) (p : Manager.Pc) (ch : Manager.Choice) : Option (Shared × Pc) :=
  match p, ch with
  | .close c k, .go =>
      (inTunnel s c .idle (.call .close)).map fun r => (r.1, .closing c r.2 k)
  | .acquire cfg (.setOnClose inf c n), .go =>
      (inTunnel s c .idle (.call .setOnClose)).map fun r =>
        (r.1, .manager (.acquire cfg (if (s.tunnels c).life.closed then .forget inf c n
          else .finish inf (.ok (c, n)))))
  -- the last `Release` asks the tunnel
  | .release serial c n, .key key =>
      if 1 < (s.manager.managed c).refCount then inManager s (.release serial c n) (.key key)
      else if s.locked = false ∧ key.serial = serial ∧ c ∈ s.manager.sessions.get key then
        some ({ s with releasing := true }, .checking key c n)
      else none
  -- the methods of a tunnel that others call
  | .idle, .call (.close _) => none
  | .idle, .call (.retire _) => none
  | p, ch => inManager s p ch

/-- `Release` goes on with what `IsRetired` says. -/
def stepChecking (s : Shared) (key : Manager.SessionKey) (c : ClientId)
    (n : Option Manager.Ticket) : Option (Shared × Pc) :=
  if (s.tunnels c).locks.mu then none
  else (Manager.next s.view (.release key.serial c n) (.key key)).map fun r =>
    ({ s with manager := r.1, releasing := false }, .manager r.2)

/-- Where a caller is after a step inside a method. -/
def userAt (c : ClientId) (p : Tunnel.Pc) : Pc := if p = .idle then .manager .idle else .user c p

def closingAt (c : ClientId) (k : CloseBy) (p : Tunnel.Pc) : Pc :=
  if p = .idle then .manager k.ret else .closing c p k

/-- One action of a goroutine. -/
def next (s : Shared) (pc : Pc) (ch : Choice) : Option (Shared × Pc) :=
  match pc, ch with
  | .manager .idle, .method c k =>
      if c < s.manager.clients ∧ k ≠ .setOnClose then
        (inTunnel s c .idle (.call k)).map fun r => (r.1, userAt c r.2)
      else none
  | .manager p, .manager ch => stepManager s p ch
  | .checking key c n, .manager .go => stepChecking s key c n
  | .own c p, .tunnel ch =>
      if c < s.manager.clients then (inMethod s c p ch).map fun r => (r.1, .own c r.2) else none
  | .user c p, .tunnel ch => (inMethod s c p ch).map fun r => (r.1, userAt c r.2)
  | .closing c p k, .tunnel ch => (inMethod s c p ch).map fun r => (r.1, closingAt c k r.2)
  | _, _ => none

/-- Time passes for all tunnels. -/
def passTime (s : Shared) (d : Tunnel.Time) : Option Shared :=
  some { s with tunnels := fun c => { s.tunnels c with now := (s.tunnels c).now + d } }

/-- Goroutines `3 * c` and `3 * c + 1` belong to tunnel `c`, the others to the manager and its
callers. -/
def startThreads (t : ℕ) : Pc :=
  if t % 3 = 0 then .own (t / 3) (.reader .top)
  else if t % 3 = 1 then .own (t / 3) (.heartbeat .loop)
  else .manager .idle

/-- A new manager, and the tunnels that its handshakes will make. -/
def Init (w : World Shared Pc) : Prop :=
  w.shared.manager = {} ∧ w.shared.releasing = false ∧ w.thr = startThreads ∧
    ∀ c, ∃ now session, 0 < now ∧ w.shared.tunnels c = (Tunnel.start now session).shared

/-- The manager, its callers and the tunnels interleaved, and the clock. -/
def system : System (World Shared Pc) (Label Choice Tunnel.Time) := interleave Init next passTime

/-- What holds for the readers, the heartbeats and the others holds for all goroutines at the
start. -/
theorem forall_startThreads {P : Pc → Prop} (hreader : ∀ c, P (.own c (.reader .top)))
    (hheartbeat : ∀ c, P (.own c (.heartbeat .loop))) (hidle : P (.manager .idle)) (t : ℕ) :
    P (startThreads t) := by
  unfold startThreads
  split
  · exact hreader _
  · split
    · exact hheartbeat _
    · exact hidle

/-! ### The actions -/

/-- A step inside a method. -/
inductive Steps (s : Shared) (c : ClientId) : Tunnel.Pc → Shared → Tunnel.Pc → Prop
  | plain (p p' : Tunnel.Pc) (ch : Tunnel.Choice) (tn : Tunnel.Shared) : p ≠ .idle →
      (∀ k, p ≠ .close (.callback true) k) → Tunnel.next (s.tunnels c) p ch = some (tn, p') →
      Steps s c p (s.setTunnel c tn) p'
  | callback (k : Tunnel.CloseCall) (p' : Tunnel.Pc) (ch : Tunnel.Choice) (tn : Tunnel.Shared) :
      s.locked = false →
      Tunnel.next (s.tunnels c) (.close (.callback true) k) ch = some (tn, p') →
      Steps s c (.close (.callback true) k)
        { s.setTunnel c tn with manager := s.manager.forget c } p'

/-- The manager does this by itself. -/
def plain : Manager.Pc → Manager.Choice → Bool
  | .close _ _, .go => false
  | .acquire _ (.setOnClose _ _ _), .go => false
  | .idle, .call (.close _) => false
  | .idle, .call (.retire _) => false
  | _, _ => true

/-- What a goroutine can do. -/
inductive Acts (s : Shared) : Pc → Shared → Pc → Prop
  | manager (p p' : Manager.Pc) (ch : Manager.Choice) (m : Manager.Shared) : plain p ch = true →
      ready s p = true → Manager.next s.view p ch = some (m, p') →
      Acts s (.manager p) { s with manager := m } (.manager p')
  | ask (key : Manager.SessionKey) (c : ClientId) (n : Option Manager.Ticket) :
      s.locked = false → c ∈ s.manager.sessions.get key →
      Acts s (.manager (.release key.serial c n)) { s with releasing := true } (.checking key c n)
  | answer (key : Manager.SessionKey) (c : ClientId) (n : Option Manager.Ticket) (p' : Manager.Pc)
      (m : Manager.Shared) : (s.tunnels c).locks.mu = false →
      Manager.next s.view (.release key.serial c n) (.key key) = some (m, p') →
      Acts s (.checking key c n) { s with manager := m, releasing := false } (.manager p')
  | close (c : ClientId) (k : CloseBy) :
      Acts s (.manager (.close c k)) s (.closing c (.close .enter .user) k)
  | setOnClose (cfg : Manager.Config) (inf : Manager.InflightId) (c : ClientId)
      (n : Manager.Ticket) (p' : Tunnel.Pc) (tn : Tunnel.Shared) :
      Tunnel.next (s.tunnels c) .idle (.call .setOnClose) = some (tn, p') →
      Acts s (.manager (.acquire cfg (.setOnClose inf c n))) (s.setTunnel c tn)
        (.manager (.acquire cfg (if (s.tunnels c).life.closed then .forget inf c n
          else .finish inf (.ok (c, n)))))
  | method (c : ClientId) (k : Tunnel.Call) (p' : Tunnel.Pc) (tn : Tunnel.Shared) :
      c < s.manager.clients → k ≠ .setOnClose →
      Tunnel.next (s.tunnels c) .idle (.call k) = some (tn, p') →
      Acts s (.manager .idle) (s.setTunnel c tn) (userAt c p')
  | own (c : ClientId) (p p' : Tunnel.Pc) (s' : Shared) : c < s.manager.clients →
      Steps s c p s' p' → Acts s (.own c p) s' (.own c p')
  | user (c : ClientId) (p p' : Tunnel.Pc) (s' : Shared) :
      Steps s c p s' p' → Acts s (.user c p) s' (userAt c p')
  | closing (c : ClientId) (p p' : Tunnel.Pc) (k : CloseBy) (s' : Shared) :
      Steps s c p s' p' → Acts s (.closing c p k) s' (closingAt c k p')

section inversion
variable {s s' : Shared} {pc pc' : Pc} {ch : Choice}

theorem inTunnel_eq_some {c : ClientId} {p p' : Tunnel.Pc} {ch : Tunnel.Choice} :
    inTunnel s c p ch = some (s', p') ↔
      ∃ tn, Tunnel.next (s.tunnels c) p ch = some (tn, p') ∧ s' = s.setTunnel c tn := by
  simp only [inTunnel, Option.map_eq_some_iff, Prod.exists, Prod.mk.injEq]
  constructor
  · rintro ⟨tn, p', hn, rfl, rfl⟩
    exact ⟨tn, hn, rfl⟩
  · rintro ⟨tn, hn, rfl⟩
    exact ⟨tn, p', hn, rfl, rfl⟩

theorem Shared.setTunnel_self (s : Shared) (c : ClientId) : s.setTunnel c (s.tunnels c) = s := by
  unfold Shared.setTunnel
  rw [Function.update_eq_self]

theorem inMethod_steps {c : ClientId} {p p' : Tunnel.Pc} {ch : Tunnel.Choice}
    (h : inMethod s c p ch = some (s', p')) : Steps s c p s' p' := by
  unfold inMethod at h
  split at h
  · cases h
  · obtain ⟨hmu, h⟩ := Option.ite_none_left_eq_some.mp h
    obtain ⟨⟨s₁, p₁⟩, hin, he⟩ := Option.map_eq_some_iff.mp h
    obtain ⟨tn, hn, rfl⟩ := inTunnel_eq_some.mp hin
    cases he
    exact .callback _ _ ch tn (Bool.of_not_eq_true hmu) hn
  · next hidle hcb =>
      obtain ⟨tn, hn, rfl⟩ := inTunnel_eq_some.mp h
      exact .plain p p' ch tn hidle hcb hn

theorem inManager_acts {p : Manager.Pc} {ch : Manager.Choice} (hp : plain p ch = true)
    (h : inManager s p ch = some (s', pc')) : Acts s (.manager p) s' pc' := by
  obtain ⟨hready, h⟩ := Option.ite_none_right_eq_some.mp h
  obtain ⟨⟨m, p₁⟩, hn, he⟩ := Option.map_eq_some_iff.mp h
  cases he
  exact .manager p p₁ ch m hp hready hn

theorem stepManager_acts {p : Manager.Pc} {ch : Manager.Choice}
    (h : stepManager s p ch = some (s', pc')) : Acts s (.manager p) s' pc' := by
  unfold stepManager at h
  split at h
  · next c k =>
      obtain ⟨⟨s₁, p₁⟩, hin, he⟩ := Option.map_eq_some_iff.mp h
      obtain ⟨tn, hn, rfl⟩ := inTunnel_eq_some.mp hin
      cases hn
      cases he
      rw [s.setTunnel_self]
      exact .close c k
  · next cfg inf c n =>
      obtain ⟨⟨s₁, p₁⟩, hin, he⟩ := Option.map_eq_some_iff.mp h
      obtain ⟨tn, hn, rfl⟩ := inTunnel_eq_some.mp hin
      cases he
      exact .setOnClose cfg inf c n _ tn hn
  · next serial c n key =>
      split at h
      · exact inManager_acts rfl h
      · obtain ⟨⟨hfree, rfl, hmem⟩, he⟩ := Option.ite_none_right_eq_some.mp h
        cases he
        exact .ask key c n hfree hmem
  · cases h
  · cases h
  · next hclose hset _ hcall hretire =>
      refine inManager_acts ?_ h
      unfold plain
      split
      · exact (hclose _ _ rfl rfl).elim
      · exact (hset _ _ _ _ rfl rfl).elim
      · exact (hcall _ rfl rfl).elim
      · exact (hretire _ rfl rfl).elim
      · rfl

theorem next_acts (h : next s pc ch = some (s', pc')) : Acts s pc s' pc' := by
  unfold next at h
  split at h
  · next c k =>
      obtain ⟨⟨hlt, hk⟩, h⟩ := Option.ite_none_right_eq_some.mp h
      obtain ⟨⟨s₁, p₁⟩, hin, he⟩ := Option.map_eq_some_iff.mp h
      obtain ⟨tn, hn, rfl⟩ := inTunnel_eq_some.mp hin
      cases he
      exact .method c k _ tn hlt hk hn
  · exact stepManager_acts h
  · next key c n =>
      obtain ⟨hmu, h⟩ := Option.ite_none_left_eq_some.mp h
      obtain ⟨⟨m, p₁⟩, hn, he⟩ := Option.map_eq_some_iff.mp h
      cases he
      exact .answer key c n p₁ m (Bool.of_not_eq_true hmu) hn
  · next c p ch =>
      obtain ⟨hlt, h⟩ := Option.ite_none_right_eq_some.mp h
      obtain ⟨⟨s₁, p₁⟩, hin, he⟩ := Option.map_eq_some_iff.mp h
      cases he
      exact .own c p p₁ _ hlt (inMethod_steps hin)
  · next c p ch =>
      obtain ⟨⟨s₁, p₁⟩, hin, he⟩ := Option.map_eq_some_iff.mp h
      cases he
      exact .user c p p₁ _ (inMethod_steps hin)
  · next c p k ch =>
      obtain ⟨⟨s₁, p₁⟩, hin, he⟩ := Option.map_eq_some_iff.mp h
      cases he
      exact .closing c p p₁ k _ (inMethod_steps hin)
  · cases h

end inversion

/-! ### What each tunnel sees -/

/-- Where the goroutine is in the methods of tunnel `c`. -/
def Pc.inside (c : ClientId) : Pc → Tunnel.Pc
  | .manager _ | .checking _ _ _ => .idle
  | .own d p => if d = c then p else .idle
  | .user d p => if d = c then p else .idle
  | .closing d p _ => if d = c then p else .idle

/-- The goroutines as tunnel `c` counts them. -/
def place (c : ClientId) : ℕ → ℕ
  | 0 => 3 * c
  | 1 => 3 * c + 1
  | u + 2 => 3 * u + 2

def tunnelOf (c : ClientId) (w : World Shared Pc) : World Tunnel.Shared Tunnel.Pc where
  shared := w.shared.tunnels c
  thr u := (w.thr (place c u)).inside c

theorem place_injective (c : ClientId) : Function.Injective (place c) := by
  intro u v h
  match u, v with
  | 0, 0 | 1, 1 => rfl
  | 0, 1 | 1, 0 | 0, _ + 2 | 1, _ + 2 | _ + 2, 0 | _ + 2, 1 =>
      simp only [place] at h
      omega
  | u + 2, v + 2 =>
      simp only [place] at h
      omega

variable {s s' : Shared} {pc pc' : Pc} {w : World Shared Pc} {t : ℕ} {c d : ClientId}

theorem userAt_inside (c d : ClientId) (p : Tunnel.Pc) :
    (userAt d p).inside c = if d = c then p else .idle := by
  unfold userAt
  split
  · next hp =>
      rw [hp]
      split <;> rfl
  · rfl

theorem closingAt_inside (c d : ClientId) (k : CloseBy) (p : Tunnel.Pc) :
    (closingAt d k p).inside c = if d = c then p else .idle := by
  unfold closingAt
  split
  · next hp =>
      rw [hp]
      split <;> rfl
  · rfl

theorem Shared.setTunnel_tunnels (s : Shared) (d : ClientId) (tn : Tunnel.Shared) (c : ClientId) :
    (s.setTunnel d tn).tunnels c = if c = d then tn else s.tunnels c := by
  by_cases h : c = d
  · rw [h, if_pos rfl]
    exact Function.update_self ..
  · rw [if_neg h]
    exact Function.update_of_ne h ..

theorem Steps.tunnel {p p' : Tunnel.Pc} (h : Steps s d p s' p') :
    ∃ ch tn, Tunnel.next (s.tunnels d) p ch = some (tn, p') ∧
      ∀ c, s'.tunnels c = if c = d then tn else s.tunnels c := by
  cases h with
  | plain p p' ch tn _ _ hn => exact ⟨ch, tn, hn, s.setTunnel_tunnels d tn⟩
  | callback k p' ch tn _ hn => exact ⟨ch, tn, hn, s.setTunnel_tunnels d tn⟩

/-- A goroutine of the manager or of a caller, or one of tunnel `c`. -/
def Pc.MayEnter (c : ClientId) : Pc → Prop
  | .own d _ => d = c
  | _ => True

/-- One step is a step of tunnel `c`, or nothing there. -/
theorem Acts.tunnel_cases (h : Acts s pc s' pc') (c : ClientId) :
    s'.tunnels c = s.tunnels c ∧ pc'.inside c = pc.inside c ∨
    pc.MayEnter c ∧
      ∃ ch, Tunnel.next (s.tunnels c) (pc.inside c) ch = some (s'.tunnels c, pc'.inside c) := by
  -- a step in the methods of tunnel `d`, seen by tunnel `c`
  have hin : ∀ {d : ClientId} {p p' : Tunnel.Pc} {ch : Tunnel.Choice} {tn : Tunnel.Shared},
      Tunnel.next (s.tunnels d) p ch = some (tn, p') →
      (∀ c, s'.tunnels c = if c = d then tn else s.tunnels c) →
      pc.inside c = (if d = c then p else .idle) → pc'.inside c = (if d = c then p' else .idle) →
      (d = c → pc.MayEnter c) →
      s'.tunnels c = s.tunnels c ∧ pc'.inside c = pc.inside c ∨ pc.MayEnter c ∧
        ∃ ch, Tunnel.next (s.tunnels c) (pc.inside c) ch = some (s'.tunnels c, pc'.inside c) := by
    intro d p p' ch tn hn htn hpc hpc' hmay
    by_cases hd : d = c
    · subst hd
      rw [if_pos rfl] at hpc hpc'
      rw [hpc, hpc', htn, if_pos rfl]
      exact .inr ⟨hmay rfl, ch, hn⟩
    · rw [if_neg hd] at hpc hpc'
      rw [hpc, hpc', htn, if_neg (Ne.symm hd)]
      exact .inl ⟨rfl, rfl⟩
  cases h with
  | manager | ask | answer => exact .inl ⟨rfl, rfl⟩
  | close d k =>
      have hclose : Tunnel.next (s.tunnels d) .idle (.call .close) =
          some (s.tunnels d, .close .enter .user) := rfl
      refine hin hclose (fun c => ?_) (by simp [Pc.inside]) rfl fun _ => trivial
      split
      · next hc => rw [hc]
      · rfl
  | setOnClose cfg inf d n p' tn hn =>
      have hidle := Tunnel.setOnClose_idle hn
      exact hin hn (s.setTunnel_tunnels d tn) (by simp [Pc.inside]) (by simp [Pc.inside, hidle])
        fun _ => trivial
  | method d k p' tn hlt hk hn =>
      exact hin hn (s.setTunnel_tunnels d tn) (by simp [Pc.inside]) (userAt_inside c d p')
        fun _ => trivial
  | own d p p' s' hlt hs =>
      obtain ⟨ch, tn, hn, htn⟩ := hs.tunnel
      exact hin hn htn rfl rfl id
  | user d p p' s' hs =>
      obtain ⟨ch, tn, hn, htn⟩ := hs.tunnel
      exact hin hn htn rfl (userAt_inside c d p') fun _ => trivial
  | closing d p p' k s' hs =>
      obtain ⟨ch, tn, hn, htn⟩ := hs.tunnel
      exact hin hn htn rfl (closingAt_inside c d k p') fun _ => trivial

/-- Goroutine `t` does what its number says. -/
def Pc.Placed (t : ℕ) : Pc → Prop
  | .own c _ => t = 3 * c ∨ t = 3 * c + 1
  | _ => t % 3 = 2

theorem Pc.Placed.exists_place (h : pc.Placed t) (hmay : pc.MayEnter c) : ∃ u, place c u = t := by
  have hother : t % 3 = 2 → ∃ u, place c u = t := by
    intro ht
    refine ⟨t / 3 + 2, ?_⟩
    simp only [place]
    omega
  cases pc with
  | own d p =>
      obtain rfl : d = c := hmay
      rcases h with rfl | rfl
      · exact ⟨0, rfl⟩
      · exact ⟨1, rfl⟩
  | manager | checking | user | closing => exact hother h

theorem Acts.placed (h : Acts s pc s' pc') (hp : pc.Placed t) : pc'.Placed t := by
  cases h with
  | method | user =>
      unfold userAt
      split <;> exact hp
  | closing =>
      unfold closingAt
      split <;> exact hp
  | _ => exact hp

theorem placed (h : system.Reachable w) (t : ℕ) : (w.thr t).Placed t := by
  revert t
  refine interleave_invariant (I := fun w => ∀ t, (w.thr t).Placed t) ?_ ?_ ?_ h
  · rintro w ⟨_, _, hthr, _⟩ t
    rw [hthr]
    unfold startThreads
    split
    · exact .inl (by omega)
    · split
      · exact .inr (by omega)
      · change t % 3 = 2
        omega
  · intro w t ch s pc _ hi _ hn
    exact forall_update (P := fun t (p : Pc) => p.Placed t) ((next_acts hn).placed (hi t))
      fun u _ => hi u
  · exact fun w d s _ hi _ _ => hi

/-- Tunnel `c` sees goroutine `t` under one number. -/
theorem tunnelOf_update (c : ClientId) (s : Shared) (u : ℕ) (pc : Pc) :
    tunnelOf c ⟨s, Function.update w.thr (place c u) pc⟩ =
      ⟨s.tunnels c, Function.update (tunnelOf c w).thr u (pc.inside c)⟩ := by
  have hthr : (fun v => (Function.update w.thr (place c u) pc (place c v)).inside c) =
      Function.update (tunnelOf c w).thr u (pc.inside c) := by
    funext v
    by_cases hv : v = u
    · rw [hv, Function.update_self, Function.update_self]
    · rw [Function.update_of_ne hv, Function.update_of_ne fun he => hv (place_injective c he)]
      rfl
  simp only [tunnelOf, hthr]

theorem tunnelOf_same (hpc : pc.inside c = (w.thr t).inside c)
    (hs : s.tunnels c = w.shared.tunnels c) :
    tunnelOf c ⟨s, Function.update w.thr t pc⟩ = tunnelOf c w := by
  have hthr : (fun v => (Function.update w.thr t pc (place c v)).inside c) =
      fun v => (w.thr (place c v)).inside c := by
    funext v
    by_cases hv : place c v = t
    · rw [hv, Function.update_self, hpc]
    · rw [Function.update_of_ne hv]
  simp only [tunnelOf, hthr, hs]

theorem startThreads_place (c : ClientId) (u : ℕ) :
    (startThreads (place c u)).inside c = Tunnel.startThreads u := by
  match u with
  | 0 =>
      have hrole : (3 * c : ℕ) % 3 = 0 := by omega
      have htunnel : (3 * c : ℕ) / 3 = c := by omega
      simp [place, startThreads, hrole, htunnel, Pc.inside, Tunnel.startThreads]
  | 1 =>
      have hrole : (3 * c + 1 : ℕ) % 3 = 1 := by omega
      have htunnel : (3 * c + 1 : ℕ) / 3 = c := by omega
      simp [place, startThreads, hrole, htunnel, Pc.inside, Tunnel.startThreads]
  | u + 2 =>
      have hrole : (3 * u + 2) % 3 = 2 := by omega
      simp [place, startThreads, hrole, Pc.inside, Tunnel.startThreads]

theorem tunnelOf_start (h : Init w) : Tunnel.Init (tunnelOf c w) := by
  obtain ⟨_, _, hthr, htunnels⟩ := h
  obtain ⟨now, session, hnow, hc⟩ := htunnels c
  refine ⟨now, session, hnow, ?_⟩
  have hstart : (fun u => (w.thr (place c u)).inside c) = Tunnel.startThreads := by
    rw [hthr]
    exact funext (startThreads_place c)
  simp only [tunnelOf, hstart, hc]
  rfl

/-- **Every run is a run of each tunnel.** -/
theorem tunnelOf_reachable (h : system.Reachable w) (c : ClientId) :
    Tunnel.system.Reachable (tunnelOf c w) := by
  refine System.Reachable.simulate (f := tunnelOf c) (fun w => tunnelOf_start) ?_ h
  intro w l w' hr hs
  cases l with
  | thread t ch =>
      obtain ⟨s, pc, hn, rfl⟩ := interleave_step_thread.mp hs
      rcases (next_acts hn).tunnel_cases c with ⟨htn, hpc⟩ | ⟨hmay, ch', hc⟩
      · exact .inl (tunnelOf_same hpc htn)
      · obtain ⟨u, rfl⟩ := (placed hr t).exists_place hmay
        rw [tunnelOf_update]
        exact .inr ⟨.thread u ch', interleave_step_thread.mpr ⟨_, _, hc, rfl⟩⟩
  | env d =>
      obtain ⟨s, he, rfl⟩ := interleave_step_env.mp hs
      cases he
      exact .inr ⟨.env d, rfl⟩

end DahuaP2p.Fleet
