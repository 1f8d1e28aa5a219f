import DahuaP2p.Fleet

/-! # What the manager sees of its tunnels

`managerOf` forgets the inside of the tunnels.  A tunnel is closed from the moment its socket is, as
in `ManagerTunnel`; a goroutine that is anywhere inside `Tunnel.Close` counts as one that is about
to close the tunnel, and then as one that is about to run the callback (`seen`).

Every run of the manager over its tunnels is a run of the manager's model (`managerOf_reachable`).
So the results about that model hold for tunnels whose `Close` takes many steps, is called by
several goroutines at once and is run by the reader itself.  `fleet_refines` puts the projections
together, and says what follows for the UDP sockets: one that is open is still looked after, and
after `CloseAll` none is left. -/

namespace DahuaP2p.Fleet

open Threads
open Manager (ClientId CloseBy)

variable {s s' : Shared} {pc pc' : Pc} {w : World Shared Pc} {t : ℕ} {c : ClientId} {k : CloseBy}
  {p p' : Tunnel.Pc}

/-! ### The view -/

/-- What the manager's model has for a goroutine that may be inside `Close`, called by `k`. -/
def seen (c : ClientId) (k : CloseBy) : Tunnel.Pc → Manager.Pc
  | .close (.callback installed) _ => if installed then .forget c k else k.ret
  | p => if p.closeCall.isSome then .close c k else k.ret

def Pc.seen : Pc → Manager.Pc
  | .manager p => p
  | .checking key c n => .release key.serial c n
  | .own c p => Fleet.seen c .user p
  | .user c p => Fleet.seen c .user p
  | .closing c p k => Fleet.seen c k p

/-- What the manager sees. -/
def managerOf (w : World Shared Pc) : World Manager.Shared Manager.Pc where
  shared := w.shared.view
  thr t := (w.thr t).seen

theorem seen_of_not_notifying (h : p.notifying = false) :
    seen c k p = if p.closeCall.isSome then .close c k else k.ret := by
  cases p with
  | close q k' =>
      cases q with
      | callback => cases h
      | _ => rfl
  | _ => rfl

theorem seen_of_closeCall_none (h : p.closeCall = none) : seen c k p = k.ret := by
  have hnot : p.notifying = false := by
    cases p with
    | close => cases h
    | _ => rfl
  rw [seen_of_not_notifying hnot, h]
  rfl

theorem seen_ret (j : Tunnel.CloseCall) : seen c k j.ret = k.ret := by
  cases j <;> rfl

theorem userAt_seen (c : ClientId) (p : Tunnel.Pc) : (userAt c p).seen = seen c .user p := by
  unfold userAt
  split
  · next hp =>
      rw [hp]
      rfl
  · rfl

theorem closingAt_seen (c : ClientId) (k : CloseBy) (p : Tunnel.Pc) :
    (closingAt c k p).seen = seen c k p := by
  unfold closingAt
  split
  · next hp =>
      rw [hp]
      rfl
  · rfl

theorem view_setTunnel (s : Shared) (c : ClientId) (tn : Tunnel.Shared) :
    (s.setTunnel c tn).view = s.view.setTunnel c tn.view := by
  have htunnels : (fun d => (Function.update s.tunnels c tn d).view) =
      Function.update (fun d => (s.tunnels d).view) c tn.view := by
    funext d
    by_cases hd : d = c
    · rw [hd, Function.update_self, Function.update_self]
    · rw [Function.update_of_ne hd, Function.update_of_ne hd]
  simp only [Shared.view, Shared.setTunnel, Manager.Shared.setTunnel, htunnels]

theorem view_setTunnel_same {tn : Tunnel.Shared} (h : tn.view = (s.tunnels c).view) :
    (s.setTunnel c tn).view = s.view := by
  rw [view_setTunnel, h]
  simp only [Manager.Shared.setTunnel, Shared.view]
  rw [Function.update_eq_self c fun d => (s.tunnels d).view]

/-! ### Steps inside a method -/

/-- A step of a goroutine for the manager's model. -/
def Seen (s : Shared) (p : Manager.Pc) (s' : Shared) (p' : Manager.Pc) : Prop :=
  s'.view = s.view ∧ p' = p ∨ ∃ ch, Manager.next s.view p ch = some (s'.view, p')

theorem Seen.enter (hlt : c < s.manager.clients) (hview : s'.view = s.view) :
    Seen s .idle s' (.close c .user) := by
  refine .inr ⟨.call (.close c), ?_⟩
  rw [hview]
  exact if_pos hlt

theorem Seen.again (hclosed : (s.tunnels c).view.closed = true) :
    Seen s (.close c k) s k.ret :=
  .inr ⟨.go, if_pos hclosed⟩

/-- The step that closes the socket. -/
theorem Seen.finish {tn : Tunnel.Shared} (j : Tunnel.CloseCall)
    (hopen : (s.tunnels c).view.closed = false)
    (hview : tn.view = { (s.tunnels c).view with closed := true }) :
    Seen s (.close c k) (s.setTunnel c tn)
      (seen c k (.close (.callback (s.tunnels c).life.onClose) j)) := by
  refine .inr ⟨.go, ?_⟩
  have hstep : Manager.next s.view (.close c k) .go =
      some (s.view.setTunnel c { (s.tunnels c).view with closed := true },
        if (s.tunnels c).life.onClose then .forget c k else k.ret) :=
    if_neg (by rw [Bool.not_eq_true]; exact hopen)
  rw [hstep, view_setTunnel, hview]
  rfl

theorem Seen.callback {tn : Tunnel.Shared} (hmu : s.locked = false)
    (hview : tn.view = (s.tunnels c).view) :
    Seen s (.forget c k) { s.setTunnel c tn with manager := s.manager.forget c } k.ret := by
  refine .inr ⟨.go, ?_⟩
  have hstep : Manager.next s.view (.forget c k) .go = some (s.view.forget c, k.ret) :=
    if_neg (by rw [Bool.not_eq_true]; exact (Bool.or_eq_false_iff.mp hmu).1)
  have htunnels := congrArg Manager.Shared.tunnels (view_setTunnel_same hview)
  rw [hstep]
  simp only [Shared.view, Shared.setTunnel] at htunnels ⊢
  rw [htunnels]
  rfl

/-- A step inside a method, by a goroutine that called it for nobody else or is in `Close`. -/
theorem Steps.seen (h : Steps s c p s' p') (hg : Tunnel.Guarded (s.tunnels c))
    (hfinish : ∀ j, p = .close .finish j → (s.tunnels c).locks.mu = true)
    (hlt : c < s.manager.clients) (hk : k = .user ∨ p.closeCall ≠ none) :
    Seen s (Fleet.seen c k p) s' (Fleet.seen c k p') := by
  cases h with
  | plain p p' ch tn hidle hcb hn =>
      have hact := (Tunnel.next_cases hn).closeAct
      cases hact with
      | keep hview hcall hnot hnot' =>
          refine .inl ⟨view_setTunnel_same hview, ?_⟩
          rw [seen_of_not_notifying hnot, seen_of_not_notifying hnot', hcall]
      | retire | setOnClose => exact absurd rfl hidle
      | enter j hview hnone =>
          obtain rfl := hk.resolve_right fun hne => hne hnone
          rw [seen_of_closeCall_none hnone]
          exact .enter hlt (view_setTunnel_same hview)
      | again j hmu hclosed =>
          rw [seen_ret, s.setTunnel_self]
          exact .again (hg.of_free hmu ▸ hclosed)
      | finish j => exact .finish j (hg.of_taken (hfinish j rfl)).2 rfl
      | callback j installed hview =>
          cases installed with
          | true => exact absurd rfl (hcb j)
          | false =>
              rw [seen_ret]
              exact .inl ⟨view_setTunnel_same hview, rfl⟩
  | callback j p' ch tn hmu hn =>
      have hact := (Tunnel.next_cases hn).closeAct
      cases hact with
      | keep _ _ hnot => cases hnot
      | enter _ _ hnone => cases hnone
      | callback j _ hview =>
          rw [seen_ret]
          exact .callback hmu hview

/-! ### Steps of the manager -/

/-- What the manager does by itself changes no tunnel, except that a handshake makes one. -/
theorem plain_tunnels {m m' : Manager.Shared} {q q' : Manager.Pc} {ch : Manager.Choice}
    (hp : plain q ch = true) (hn : Manager.next m q ch = some (m', q')) :
    m'.tunnels = m.tunnels ∨ m' = m.connected := by
  cases q with
  | idle =>
      cases ch with
      | call k =>
          cases k with
          | retire | close => cases hp
          | acquire | release | closeAll =>
              cases hn
              exact .inl rfl
          | timer | spawned =>
              obtain ⟨_, he⟩ := Option.ite_none_right_eq_some.mp hn
              cases he
              exact .inl rfl
      | _ => cases hn
  | close c k =>
      cases ch with
      | go => cases hp
      | _ => cases hn
  | acquire cfg a =>
      have ha := Manager.next_cases hn
      cases ha with
      | connected => exact .inr rfl
      | setOnClose =>
          cases ch with
          | go => cases hp
          | _ => cases hn
      | _ => exact .inl rfl
  | _ =>
      have ha := Manager.next_cases hn
      cases ha <;> exact .inl rfl

theorem view_manager {m : Manager.Shared} {b : Bool} (h : m.tunnels = s.view.tunnels) :
    ({ s with manager := m, releasing := b } : Shared).view = m := by
  change { m with tunnels := s.view.tunnels } = m
  rw [← h]

/-- A tunnel whose handshake has not ended is as `Manager` makes it. -/
def Fresh (s : Shared) : Prop := ∀ c, s.manager.clients ≤ c → (s.tunnels c).view = {}

/-- The handshake ends with a tunnel that is there already. -/
theorem Fresh.tunnels {m : Manager.Shared} {q q' : Manager.Pc} {ch : Manager.Choice}
    (h : Fresh s) (hp : plain q ch = true) (hn : Manager.next s.view q ch = some (m, q')) :
    m.tunnels = s.view.tunnels := by
  rcases plain_tunnels hp hn with he | rfl
  · exact he
  · change Function.update s.view.tunnels s.manager.clients {} = s.view.tunnels
    rw [← h _ le_rfl]
    exact Function.update_eq_self _ s.view.tunnels

theorem Seen.method {tn : Tunnel.Shared} {call : Tunnel.Call} (hlt : c < s.manager.clients)
    (hcall : call ≠ .setOnClose)
    (hn : Tunnel.next (s.tunnels c) .idle (.call call) = some (tn, p')) :
    Seen s .idle (s.setTunnel c tn) (userAt c p').seen := by
  rw [userAt_seen]
  rcases Tunnel.call_view hcall hn with ⟨rfl, rfl⟩ | ⟨hview, rfl | hnone⟩
  · refine .inr ⟨.call (.retire c), ?_⟩
    rw [view_setTunnel]
    exact if_pos hlt
  · exact .enter hlt (view_setTunnel_same hview)
  · rw [seen_of_closeCall_none hnone]
    exact .inl ⟨view_setTunnel_same hview, rfl⟩

theorem Seen.setOnClose {cfg : Manager.Config} {inf : Manager.InflightId} {n : Manager.Ticket}
    {tn : Tunnel.Shared} (hg : Tunnel.Guarded (s.tunnels c))
    (hn : Tunnel.next (s.tunnels c) .idle (.call .setOnClose) = some (tn, p')) :
    Seen s (.acquire cfg (.setOnClose inf c n)) (s.setTunnel c tn)
      (.acquire cfg (if (s.tunnels c).life.closed then .forget inf c n
        else .finish inf (.ok (c, n)))) := by
  obtain ⟨hmu, _⟩ := Option.ite_none_left_eq_some.mp hn
  have hinstalls := Tunnel.simulates_installs hg hn
  rw [hg.of_free (Bool.of_not_eq_true hmu)]
  refine .inr ⟨.go, ?_⟩
  split at hinstalls
  · next hclosed =>
      rw [view_setTunnel_same hinstalls.2, if_pos hclosed]
      exact if_pos hclosed
  · next hopen =>
      rw [view_setTunnel, hinstalls.2, if_neg hopen]
      exact if_neg hopen

/-! ### Runs -/

/-- Methods are called on tunnels that exist, and the manager calls only `Close`. -/
def Pc.Sound (clients : ℕ) : Pc → Prop
  | .user c _ => c < clients
  | .closing c p _ => c < clients ∧ p.closeCall = some .user
  | _ => True

theorem Pc.Sound.mono {m n : ℕ} (h : pc.Sound m) (hle : m ≤ n) : pc.Sound n := by
  cases pc with
  | user => exact lt_of_lt_of_le h hle
  | closing => exact ⟨lt_of_lt_of_le h.1 hle, h.2⟩
  | _ => trivial

theorem userAt_sound {n : ℕ} (hlt : c < n) (p : Tunnel.Pc) : (userAt c p).Sound n := by
  unfold userAt
  split
  · trivial
  · exact hlt

theorem Steps.clients (h : Steps s c p s' p') : s'.manager.clients = s.manager.clients := by
  cases h <;> rfl

theorem Acts.clients (h : Acts s pc s' pc') : s.manager.clients ≤ s'.manager.clients := by
  cases h with
  | manager q q' ch m _ _ hn | answer key c n q' m _ hn => exact (Manager.next_cases hn).clients
  | own c p p' s' _ hs | user c p p' s' hs | closing c p p' k s' hs => exact hs.clients.ge
  | ask | close | setOnClose | method => exact le_rfl

/-- `Close` goes on, or returns to the manager. -/
theorem Steps.closeCall (h : Steps s c p s' p') (hp : p.closeCall = some .user) :
    p'.closeCall = some .user ∨ p' = .idle := by
  obtain ⟨ch, tn, hn, _⟩ := h.tunnel
  have hact := (Tunnel.next_cases hn).closeAct
  generalize tn = tn' at hact
  cases hact with
  | keep _ hcall => exact .inl (hcall.trans hp)
  | retire | setOnClose => exact .inr rfl
  | enter _ _ hnone =>
      rw [hp] at hnone
      cases hnone
  | finish => exact .inl hp
  | again j | callback j =>
      cases hp
      exact .inr rfl

theorem Acts.sound (h : Acts s pc s' pc') (hs : pc.Sound s.manager.clients)
    (hnamed : ∀ c ∈ pc.seen.named, c < s.manager.clients) : pc'.Sound s.manager.clients := by
  cases h with
  | manager | ask | answer | setOnClose | own => trivial
  | close c k => exact ⟨hnamed c List.mem_cons_self, rfl⟩
  | method c call p' tn hlt => exact userAt_sound hlt p'
  | user c p p' s' => exact userAt_sound hs p'
  | closing c p p' k s' hstep =>
      rcases hstep.closeCall hs.2 with hcall | rfl
      · unfold closingAt
        split
        · trivial
        · exact ⟨hs.1, hcall⟩
      · trivial

/-- A tunnel whose handshake has not ended does nothing. -/
theorem Acts.fresh (h : Acts s pc s' pc') (hs : pc.Sound s.manager.clients)
    (hnamed : ∀ c ∈ pc.seen.named, c < s.manager.clients) (hf : Fresh s) : Fresh s' := by
  intro c hc
  replace hc := h.clients.trans hc
  have hother : ∀ {d : ClientId} {tn : Tunnel.Shared}, d < s.manager.clients →
      (s.setTunnel d tn).tunnels c = s.tunnels c := by
    intro d tn hd
    rw [s.setTunnel_tunnels, if_neg (lt_of_lt_of_le hd hc).ne']
  have hstep : ∀ {d : ClientId} {p p' : Tunnel.Pc}, Steps s d p s' p' → d < s.manager.clients →
      s'.tunnels c = s.tunnels c := by
    intro d p p' hst hd
    cases hst with
    | plain | callback => exact hother hd
  have hsame : s'.tunnels c = s.tunnels c := by
    cases h with
    | manager | ask | answer | close => rfl
    | setOnClose cfg inf d => exact hother (hnamed d List.mem_cons_self)
    | method d call p' tn hlt => exact hother hlt
    | own d p p' s' hlt hst => exact hstep hst hlt
    | user d p p' s' hst => exact hstep hst hs
    | closing d p p' k s' hst => exact hstep hst hs.1
  rw [hsame]
  exact hf c hc

/-- **One step** of the manager over its tunnels is one of the manager's model, or nothing there. -/
theorem Acts.seen (h : Acts s pc s' pc') (hg : ∀ c, Tunnel.Guarded (s.tunnels c))
    (hfinish : ∀ c j, pc.inside c = .close .finish j → (s.tunnels c).locks.mu = true)
    (hs : pc.Sound s.manager.clients) (hf : Fresh s) : Seen s pc.seen s' pc'.seen := by
  have hmu : ∀ {d : ClientId} {p : Tunnel.Pc}, pc.inside d = p →
      ∀ j, p = .close .finish j → (s.tunnels d).locks.mu = true :=
    fun hp j hj => hfinish _ j (hp.trans hj)
  cases h with
  | manager q q' ch m hp _ hn =>
      refine .inr ⟨ch, ?_⟩
      rw [view_manager (hf.tunnels hp hn)]
      exact hn
  | ask | close => exact .inl ⟨rfl, rfl⟩
  | answer key c n q' m _ hn =>
      refine .inr ⟨.key key, ?_⟩
      rw [view_manager (hf.tunnels rfl hn)]
      exact hn
  | setOnClose cfg inf d n p' tn hn => exact .setOnClose (hg d) hn
  | method d call p' tn hlt hcall hn => exact .method hlt hcall hn
  | own d p p' s' hlt hst =>
      exact hst.seen (hg d) (hmu (if_pos rfl)) hlt (.inl rfl)
  | user d p p' s' hst =>
      rw [userAt_seen]
      exact hst.seen (hg d) (hmu (if_pos rfl)) hs (.inl rfl)
  | closing d p p' k s' hst =>
      rw [closingAt_seen]
      exact hst.seen (hg d) (hmu (if_pos rfl)) hs.1 (.inr (by simp [hs.2]))

theorem Pc.mayEnter (h : pc.inside c ≠ .idle) : pc.MayEnter c := by
  cases pc with
  | own d p => exact by_contra fun hd => h (if_neg hd)
  | _ => trivial

/-- Who is about to close the socket of a tunnel has its `t.mu`. -/
theorem finish_locked (h : system.Reachable w) (j : Tunnel.CloseCall)
    (hpc : (w.thr t).inside c = .close .finish j) : (w.shared.tunnels c).locks.mu = true := by
  have hne : (w.thr t).inside c ≠ .idle := by simp [hpc]
  obtain ⟨u, rfl⟩ := (placed h t).exists_place (Pc.mayEnter hne)
  have hx := (Tunnel.resource_exclusive (tunnelOf_reachable h c) .mu).not_free (t := u) (by
    change ((w.thr (place c u)).inside c).holds .mu = true
    rw [hpc]
    rfl)
  simpa [Tunnel.Shared.free, tunnelOf] using hx

theorem managerOf_update (s : Shared) (t : ℕ) (pc : Pc) :
    managerOf ⟨s, Function.update w.thr t pc⟩ =
      ⟨s.view, Function.update (managerOf w).thr t pc.seen⟩ := by
  have hthr : (fun u => (Function.update w.thr t pc u).seen) =
      Function.update (managerOf w).thr t pc.seen := by
    funext u
    by_cases hu : u = t
    · rw [hu, Function.update_self, Function.update_self]
    · rw [Function.update_of_ne hu, Function.update_of_ne hu]
      rfl
  simp only [managerOf, hthr]

theorem startThreads_seen (t : ℕ) : (startThreads t).seen = .idle :=
  forall_startThreads (P := fun pc => pc.seen = .idle) (fun _ => rfl) (fun _ => rfl) rfl t

theorem managerOf_start (h : Init w) : managerOf w = Manager.start := by
  obtain ⟨hm, _, hthr, htunnels⟩ := h
  have hviews : (fun c => (w.shared.tunnels c).view) = fun _ => {} := by
    funext c
    obtain ⟨now, session, _, hc⟩ := htunnels c
    rw [hc]
    rfl
  have hidle : (fun t => (w.thr t).seen) = fun _ => .idle := by
    rw [hthr]
    exact funext startThreads_seen
  simp only [managerOf, Shared.view, hviews, hidle, hm]
  rfl

/-- **Every run is a run of the manager's model.** -/
theorem managerOf_reachable (h : system.Reachable w) :
    Manager.system.Reachable (managerOf w) ∧ (∀ t, (w.thr t).Sound w.shared.manager.clients) ∧
      Fresh w.shared := by
  refine interleave_invariant (I := fun w => Manager.system.Reachable (managerOf w) ∧
    (∀ t, (w.thr t).Sound w.shared.manager.clients) ∧ Fresh w.shared) ?_ ?_ ?_ h
  · intro w hw
    have hstart := managerOf_start hw
    refine ⟨hstart ▸ .init rfl, fun t => ?_, fun c _ => ?_⟩
    · rw [hw.2.2.1]
      exact forall_startThreads (P := fun pc => pc.Sound _) (fun _ => trivial) (fun _ => trivial)
        trivial t
    · exact congrArg (fun m => m.shared.tunnels c) hstart
  · rintro w t ch s pc hr ⟨hm, hsound, hf⟩ _ hn
    have ha := next_acts hn
    have hnamed := (Manager.known hm).1 t
    refine ⟨?_, ?_, ha.fresh (hsound t) hnamed hf⟩
    · rw [managerOf_update]
      have hg : ∀ c, Tunnel.Guarded (w.shared.tunnels c) :=
        fun c => (Tunnel.guarded (tunnelOf_reachable hr c)).1
      rcases ha.seen hg (fun c j => finish_locked hr j) (hsound t) hf with ⟨hview, hpc⟩ | ⟨ch', hn'⟩
      · rw [hview, hpc]
        have hsame : Function.update (managerOf w).thr t (w.thr t).seen = (managerOf w).thr :=
          Function.update_eq_self t (managerOf w).thr
        rw [hsame]
        exact hm
      · exact hm.step (interleave_step_thread.mpr ⟨s.view, pc.seen, hn', rfl⟩)
    · exact forall_update (P := fun _ (p : Pc) => p.Sound s.manager.clients)
        ((ha.sound (hsound t) hnamed).mono ha.clients) fun u _ => (hsound u).mono ha.clients
  · rintro w d s _ ⟨hm, hsound, hf⟩ _ hs
    cases hs
    exact ⟨hm, hsound, hf⟩

/-- **Refinement.** Every run of the manager over its tunnels is a run of the manager's model and
of each tunnel.  So a UDP socket that is open belongs to a session in a list, to the `Acquire` that
made it, or to a goroutine that is going to close it; and when `CloseAll` has run and everybody has
left the manager and `Close`, no socket is open. -/
theorem fleet_refines (h : system.Reachable w) :
    Manager.system.Reachable (managerOf w) ∧ (∀ c, Tunnel.system.Reachable (tunnelOf c w)) ∧
    (∀ c < w.shared.manager.clients, (w.shared.tunnels c).life.socketClosed = false →
      ∃ t, Manager.Kept w.shared.manager (w.thr t).seen c) ∧
    (w.shared.manager.closed = true → (∀ t, (w.thr t).seen = .idle) →
      w.shared.manager.spawned = [] →
      ∀ c < w.shared.manager.clients, (w.shared.tunnels c).life.socketClosed = true) := by
  obtain ⟨hm, _, _⟩ := managerOf_reachable h
  have hkept : ∀ c < w.shared.manager.clients, (w.shared.tunnels c).life.socketClosed = false →
      ∃ t, Manager.Kept w.shared.manager (w.thr t).seen c := Manager.kept hm
  refine ⟨hm, tunnelOf_reachable h, hkept, fun hclosed hidle hspawned c hlt => ?_⟩
  have hempty : w.shared.manager.sessions = ∅ := (Manager.closed_empty hm hclosed).2
  by_contra hopen
  obtain ⟨t, hk⟩ := hkept c hlt (Bool.of_not_eq_true hopen)
  rw [Manager.Kept, hempty, hspawned, hidle t] at hk
  simp [Manager.Pc.fresh, Manager.Pc.closes] at hk

/-! ### A run -/

/-- A new manager; its handshakes make tunnels that start at `now`. -/
def start (now : Tunnel.Time) (session : Ptcp.Session) : World Shared Pc where
  shared :=
    { manager := {}, releasing := false, tunnels := fun _ => (Tunnel.start now session).shared }
  thr := startThreads

theorem reach_of_exec {ok : World Shared Pc → Label Choice Tunnel.Time → Prop}
    [∀ w l, Decidable (ok w l)] {now : Tunnel.Time} {session : Ptcp.Session}
    {ls : List (Label Choice Tunnel.Time)} (hnow : 0 < now)
    (h : system.exec ok (start now session) ls = some w) : system.Reach ok w :=
  System.Reach.exec (.init ⟨rfl, rfl, rfl, fun _ => ⟨now, session, hnow, rfl⟩⟩) h

/-- Actions of goroutine `t` in the manager. -/
def managerActs (t : ℕ) (choices : List Manager.Choice) : List (Label Choice Tunnel.Time) :=
  choices.map fun ch => .thread t (.manager ch)

/-- Actions of goroutine `t` in a tunnel. -/
def tunnelActs (t : ℕ) (choices : List Tunnel.Choice) : List (Label Choice Tunnel.Time) :=
  choices.map fun ch => .thread t (.tunnel ch)

/-- `Acquire` with a handshake, from its call to its return. -/
def acquireScript (t : ℕ) (cfg : Manager.Config) : List (Label Choice Tunnel.Time) :=
  managerActs t ([.call (.acquire cfg)] ++ Manager.gos 3 ++ [.handshake true] ++ Manager.gos 4)

/-- `CloseAll`, with one session. -/
def closeAllScript : List (Label Choice Tunnel.Time) :=
  acquireScript 2 Manager.singleRealm ++
    managerActs 5 ([.call .closeAll, .keys [Manager.sessionKeyFor Manager.singleRealm]] ++
      Manager.gos 2) ++
    tunnelActs 5 (Tunnel.gos 7) ++ managerActs 5 [.go]

/-- The socket ends up closed. -/
theorem fleet_refines_closeAllScript :
    ∃ w, system.exec (fun _ _ => True) (start 1 Ptcp.newSession) closeAllScript = some w ∧
      w.shared.manager.clients = 1 ∧ (w.shared.tunnels 0).life.socketClosed = true := by
  have hrun : (system.exec (fun _ _ => True) (start 1 Ptcp.newSession) closeAllScript).map
      (fun w => decide (w.shared.manager.clients = 1 ∧ w.shared.manager.closed = true ∧
        w.shared.manager.spawned = [] ∧ (List.range 6).all fun t => (w.thr t).seen = .idle)) =
      some true := by
    decide +kernel
  obtain ⟨w, hw, he⟩ := Option.map_eq_some_iff.mp hrun
  obtain ⟨hclients, hclosed, hspawned, hfirst⟩ := of_decide_eq_true he
  have hidle : ∀ t, (w.thr t).seen = .idle := by
    intro t
    by_cases ht : t < 6
    · exact of_decide_eq_true (List.all_eq_true.mp hfirst t (List.mem_range.mpr ht))
    · rw [exec_thr (n := 6) (by decide +kernel) (not_lt.mp ht) hw]
      exact startThreads_seen t
  obtain ⟨_, _, _, hall⟩ := fleet_refines (reach_of_exec (by decide) hw)
  exact ⟨w, hw, hclients, hall hclosed hidle hspawned 0 (by omega)⟩

end DahuaP2p.Fleet
