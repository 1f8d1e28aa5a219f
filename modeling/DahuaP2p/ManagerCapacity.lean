import DahuaP2p.ManagerHandshakes

/-! # When a fixed port is exhausted

A configuration that pins a local port has at most one tunnel, and `Acquire` fails with
`ErrFixedPortCapacity` when it may not use it.

* If the second loop of `findAvailableSession` finds no tunnel of such a configuration closed, and
  tunnels are retired by their holders only, then a caller holds the tunnel when `Acquire` fails
  so, and the tunnel is full or retired (`capacity_in_use`).
* A tunnel that closes between the two loops is still in the list and counts as retired, so that
  an idle tunnel that has just died makes `Acquire` fail (`capacity_of_dead`). -/

namespace DahuaP2p.Manager

open Threads

variable {s s' : Shared} {pc pc' : Pc} {w : World Shared Pc} {t : ℕ} {c : ClientId} {ch : Choice}
  {key : SessionKey} {ok : World Shared Pc → Label Choice Empty → Prop}

/-! ### Runs -/

/-- A caller that gives up a ticket gives its serial, and a tunnel is retired by a holder. -/
def Rightful (w : World Shared Pc) : Label Choice Empty → Prop
  | .thread _ (.call (.release serial _ (some n))) =>
      n < w.shared.hist.tickets ∧ w.shared.hist.serial n = serial
  | .thread _ (.call (.retire c)) => (w.shared.hist.live c).Nonempty
  | _ => True

/-- The session at which the second loop of `findAvailableSession` looks, for a configuration that
pins a port. -/
def Pc.candidate : Pc → Option ClientId
  | .acquire cfg (.select (c :: _)) => if cfg.p2pPort = 0 then none else some c
  | _ => none

/-- For a pinned port the second loop of `findAvailableSession` finds no tunnel closed. -/
def FoundOpen (w : World Shared Pc) : Label Choice Empty → Prop
  | .thread t _ => ∀ c ∈ (w.thr t).candidate, (w.shared.tunnels c).closed = false

/-! ### Retired tunnels -/

theorem Acts.retired_mono (h : Acts s pc s' pc') (hc : c < s.clients)
    (hret : (s.tunnels c).retired = true) : (s'.tunnels c).retired = true := by
  have hupd : ∀ (d : ClientId) (tn : Tunnel), (d = c → tn.retired = true) →
      (Function.update s.tunnels d tn c).retired = true := by
    intro d tn htn
    by_cases hd : c = d
    · rw [hd, Function.update_self]
      exact htn hd.symm
    · rw [Function.update_of_ne hd]
      exact hret
  cases h with
  | connected => exact hupd s.clients _ fun e => absurd e (Nat.ne_of_gt hc)
  | callRetire d => exact hupd d _ fun _ => rfl
  | setOnClose _ _ d | closeNotify d | closeQuiet d => exact hupd d _ fun e => e ▸ hret
  | _ => exact hret

theorem Acts.retired (h : Acts s pc s' pc') (hret : (s'.tunnels c).retired = true) :
    (s.tunnels c).retired = true ∨ pc = .idle ∧ pc' = .idle := by
  have hupd : ∀ (d : ClientId) (tn : Tunnel),
      (Function.update s.tunnels d tn c).retired = true →
      (tn.retired = true → (s.tunnels d).retired = true) → (s.tunnels c).retired = true := by
    intro d tn hr htn
    by_cases hd : c = d
    · rw [hd] at hr ⊢
      rw [Function.update_self] at hr
      exact htn hr
    · rwa [Function.update_of_ne hd] at hr
  cases h with
  | callRetire d => exact .inr ⟨rfl, rfl⟩
  | connected => exact .inl (hupd s.clients _ hret fun hr => nomatch hr)
  | setOnClose _ _ d | closeNotify d | closeQuiet d => exact .inl (hupd d _ hret fun hr => hr)
  | _ => exact .inl hret

/-- A call that is over at once is one of `Retire`. -/
theorem call_of_retire (h : next s .idle ch = some (s', .idle)) :
    ∃ d, ch = .call (.retire d) ∧ s' = s.setTunnel d { s.tunnels d with retired := true } := by
  cases ch with
  | call x =>
      cases x with
      | retire d =>
          obtain ⟨_, he⟩ := Option.ite_none_right_eq_some.mp h
          cases he
          exact ⟨d, rfl, rfl⟩
      | acquire | release | closeAll => cases h
      | close | timer | spawned =>
          obtain ⟨_, he⟩ := Option.ite_none_right_eq_some.mp h
          cases he
  | _ => cases h

/-- A tunnel is retired by a holder, in a step that leaves the tickets as they are. -/
theorem retired_of_rightful (hok : Rightful w (.thread t ch))
    (hn : next w.shared (w.thr t) ch = some (s, pc)) (hret : (s.tunnels c).retired = true) :
    (w.shared.tunnels c).retired = true ∨
      (w.shared.hist.live c).Nonempty ∧ s.hist = w.shared.hist := by
  rcases (next_cases hn).retired hret with hret | ⟨hidle, rfl⟩
  · exact .inl hret
  · rw [hidle] at hn
    obtain ⟨d, rfl, rfl⟩ := call_of_retire hn
    by_cases hd : c = d
    · subst hd
      exact .inr ⟨hok, rfl⟩
    · simp only [Shared.setTunnel, Function.update_of_ne hd] at hret
      exact .inl hret

/-! ### Sessions that are in use -/

/-- A session that may not be acquired although its tunnel is open. -/
def Busy (s : Shared) (c : ClientId) : Prop :=
  (s.tunnels c).retired = true ∨ (s.managed c).maxRealms ≤ (s.managed c).refCount

/-- Every reference and the retirement of a listed session has a holder; what an `Acquire` with a
pinned port has passed over is in use. -/
structure InUse (w : World Shared Pc) : Prop where
  count : ∀ key, ∀ c ∈ w.shared.sessions.get key,
    (w.shared.managed c).refCount ≤ (w.shared.hist.live c).card
  retired : ∀ key, ∀ c ∈ w.shared.sessions.get key, (w.shared.tunnels c).retired = true →
    (w.shared.hist.live c).Nonempty
  release : ∀ t serial c n, w.thr t = .release serial c (some n) →
    n < w.shared.hist.tickets ∧ w.shared.hist.serial n = serial
  passed : ∀ t cfg todo, w.thr t = .acquire cfg (.select todo) → cfg.p2pPort ≠ 0 →
    ∀ c ∈ w.shared.sessions.get (sessionKeyFor cfg), c ∉ todo →
      (w.shared.hist.live c).Nonempty ∧ Busy w.shared c

/-- A full session has a holder. -/
theorem InUse.nonempty_of_busy (hi : InUse w) (hr : system.Reach ok w)
    (hc : c ∈ w.shared.sessions.get key) (hb : Busy w.shared c) :
    (w.shared.hist.live c).Nonempty := by
  rcases hb with hret | hfull
  · exact hi.retired key c hc hret
  · obtain ⟨hmax, hone⟩ := maxRealms_of_listed hr key c hc
    have hcount := hi.count key c hc
    exact Finset.card_pos.mp (by omega)

/-- The critical section of a `Release` that does not find the session leaves its tickets as they
are, if the session is listed. -/
theorem InUse.live_of_unknown (hi : InUse w) (hr : system.Reach ok w)
    (hc : c ∈ w.shared.sessions.get key) (serial : String) {n : Option Ticket}
    (ht : w.thr t = .release serial c n)
    (hno : ∀ key, key.serial = serial → c ∉ w.shared.sessions.get key) :
    (w.shared.hist.release c n).live c = w.shared.hist.live c := by
  cases n with
  | none => rfl
  | some n =>
      simp only [History.release, Function.update_self]
      refine Finset.erase_eq_of_notMem fun hmem => ?_
      have hserial := (issued hr c n hmem).2.2.1
      rw [(hi.release t serial c n ht).2, (listing hr).key key c hc] at hserial
      exact hno key hserial.symm hc

theorem History.card_release_le (h : History) (c : ClientId) (n : Option Ticket) :
    (h.live c).card - 1 ≤ ((h.release c n).live c).card := by
  cases n with
  | none => exact Nat.sub_le _ _
  | some n =>
      simp only [History.release, Function.update_self]
      exact Finset.pred_card_le_card_erase

theorem InUse.count_step (hi : InUse w) (hr : system.Reach ok w)
    (ha : Acts w.shared (w.thr t) s pc) (key : SessionKey) (c : ClientId)
    (hc : c ∈ s.sessions.get key) : (s.managed c).refCount ≤ (s.hist.live c).card := by
  have hl := listing hr
  have hissue : ∀ serial, Issues w.shared (w.thr t) s c serial →
      (s.managed c).refCount ≤ (s.hist.live c).card := by
    intro serial h
    have hcard := History.card_issue (fun n hn => (issued hr c n hn).1) serial
    rw [h.hist, hcard]
    have hknows := hl.knows t
    generalize w.thr t = p at h hknows
    cases h with
    | reserve cfg c todo =>
        have hcount := hi.count _ c (hknows List.mem_cons_self)
        simp only [Shared.reserve, Shared.setManaged, Function.update_self]
        omega
    | commit cfg inf c =>
        simp only [Shared.commit, Shared.setManaged, Function.update_self]
        omega
  rcases ha.listAct.mem (hl.knows t) hc with hold | ⟨cfg, inf, hpc, rfl, _⟩
  · have hcount := hi.count key c hold
    rcases ha.account c with e | ⟨serial, h⟩ | ⟨n, h⟩
    · simp only [Shared.account, Prod.mk.injEq] at e
      rw [e.1, e.2.2.2]
      exact hcount
    · exact hissue serial h
    · have hunknown := hi.live_of_unknown hr hold (t := t) (n := n)
      generalize w.thr t = p at h hunknown
      cases h with
      | found key' c n armedAt _ hcount' e =>
          have hcard := w.shared.hist.card_release_le c n
          rw [hcount', e]
          simp only
          omega
      | unknown serial c n hno =>
          simp only
          rw [hunknown serial rfl hno]
          exact hcount
  · refine hissue cfg.serial ?_
    rw [hpc]
    exact .commit cfg inf c

/-- A listed session that is retired keeps a holder: its last `Release` takes it off the list. -/
theorem InUse.live_step (hi : InUse w) (hr : system.Reach ok w)
    (ha : Acts w.shared (w.thr t) s pc) (hold : c ∈ w.shared.sessions.get key)
    (hc : c ∈ s.sessions.get key) (hret : (w.shared.tunnels c).retired = true) :
    (s.hist.live c).Nonempty := by
  have hl := listing hr
  have hlive := hi.retired key c hold hret
  rcases ha.account c with e | ⟨serial, h⟩ | ⟨n, h⟩
  · simp only [Shared.account, Prod.mk.injEq] at e
    rw [e.2.2.2]
    exact hlive
  · rw [h.hist]
    exact hlive.mono fun n hn => History.mem_issue_live.mpr (.inl hn)
  · have hunknown := hi.live_of_unknown hr hold (t := t) (n := n)
    have hcount := hi.count key c hold
    have hcard := w.shared.hist.card_release_le c n
    have hp : ∃ serial, w.thr t = .release serial c n := by
      generalize w.thr t = p at h
      cases h <;> exact ⟨_, rfl⟩
    obtain ⟨serial, hp⟩ := hp
    rw [hp] at ha
    cases ha with
    | releaseShared key' _ _ _ _ hmore =>
        -- two references, so two holders
        exact Finset.card_pos.mp (by simp only [Shared.releaseShared]; omega)
    | releaseRetired key' _ _ _ hmem => exact absurd hc (hl.unlisted_of_remove hmem rfl key)
    | releaseIdle key' _ _ _ _ _ hnot => simp [Tunnel.isRetired, hret] at hnot
    | releaseUnknown _ _ _ _ hno =>
        simp only
        rw [hunknown serial hp hno]
        exact hlive

theorem InUse.retired_step (hi : InUse w) (hr : system.Reach ok w)
    (hok : Rightful w (.thread t ch)) (hn : next w.shared (w.thr t) ch = some (s, pc))
    (key : SessionKey) (c : ClientId) (hc : c ∈ s.sessions.get key)
    (hret : (s.tunnels c).retired = true) : (s.hist.live c).Nonempty := by
  have ha := next_cases hn
  rcases ha.listAct.mem ((listing hr).knows t) hc with hold | ⟨cfg, inf, hpc, rfl, _⟩
  · rcases retired_of_rightful hok hn hret with hret | ⟨hlive, e⟩
    · exact hi.live_step hr ha hold hc hret
    · rw [e]
      exact hlive
  · exact ⟨w.shared.hist.tickets, History.mem_issue_live.mpr (.inr ⟨rfl, rfl⟩)⟩

theorem InUse.release_step (hi : InUse w) (hok : Rightful w (.thread t ch))
    (hn : next w.shared (w.thr t) ch = some (s, pc)) (u : ℕ) (serial : String) (c : ClientId)
    (n : Ticket) : Function.update w.thr t pc u = .release serial c (some n) →
      n < s.hist.tickets ∧ s.hist.serial n = serial := by
  have ha := next_cases hn
  have hlater : ∀ {n}, n < w.shared.hist.tickets ∧ w.shared.hist.serial n = serial →
      n < s.hist.tickets ∧ s.hist.serial n = serial := by
    rintro n ⟨hlt, hserial⟩
    refine ⟨hlt.trans_le ?_, (ha.serial_eq hlt).trans hserial⟩
    rcases ha.ticketAct.live with ⟨_, _, hissue, _⟩ | ⟨htickets, _⟩
    · rw [hissue.hist]
      exact Nat.le_succ _
    · exact htickets.ge
  refine forall_update (P := fun _ (p : Pc) => p = .release serial c (some n) →
    n < s.hist.tickets ∧ s.hist.serial n = serial) (fun hp => ?_)
    (fun v _ hv => hlater (hi.release v serial c n hv)) u
  subst hp
  obtain ⟨_, rfl⟩ := call_of_release hn
  exact hlater hok

/-! ### What the second loop has passed over -/

/-- While another goroutine has `m.mu`, no ticket is issued or settled. -/
theorem Acts.live_of_locked (h : Acts s pc s' pc') (hmu : s.mu = true) (hpc : pc.inLock = false) :
    s'.hist.live = s.hist.live := by
  have hnot : s.mu ≠ false := by rw [hmu]; decide
  cases h with
  | commit _ _ _ hfree | releaseShared _ _ _ hfree | releaseRetired _ _ _ hfree
  | releaseIdle _ _ _ hfree | releaseUnknown _ _ _ hfree => exact absurd hfree hnot
  | reserve => cases hpc
  | callRelease serial c n => cases n <;> rfl
  | _ => rfl

/-- The second loop looks at one more session. -/
theorem InUse.passed_own (hi : InUse w) (hr : system.Reach ok w)
    (hopen : FoundOpen w (.thread t ch)) (ha : Acts w.shared (w.thr t) s pc) {cfg : Config}
    {todo : List ClientId} (hpc : pc = .acquire cfg (.select todo)) (hport : cfg.p2pPort ≠ 0)
    (c : ClientId) (hc : c ∈ s.sessions.get (sessionKeyFor cfg)) (hno : c ∉ todo) :
    (s.hist.live c).Nonempty ∧ Busy s c := by
  have hpassed := hi.passed t
  have hopen : ∀ c ∈ (w.thr t).candidate, (w.shared.tunnels c).closed = false := hopen
  generalize w.thr t = p at ha hpassed hopen
  cases ha with
  | pruned cfg' live =>
      cases hpc
      rw [SessionMap.get_store_self] at hc
      exact absurd hc hno
  | skip cfg' d todo' hskip =>
      cases hpc
      by_cases hd : c = d
      · subst hd
        have hbusy : Busy w.shared c := by
          have hclosed := hopen c (if_neg hport)
          refine hskip.imp_left fun hret => ?_
          simpa [Tunnel.isRetired, hclosed] using hret
        exact ⟨hi.nonempty_of_busy hr hc hbusy, hbusy⟩
      · exact hpassed cfg (d :: todo) rfl hport c hc (List.not_mem_cons_of_ne_of_not_mem hd hno)
  | closeAgain _ k | closeQuiet _ k | forget _ k => cases k <;> cases hpc
  | _ => cases hpc

theorem InUse.passed_other (hi : InUse w) (hr : system.Reach ok w)
    (ha : Acts w.shared (w.thr t) s pc) {u : ℕ} (hu : u ≠ t) {cfg : Config} {todo : List ClientId}
    (hpc : w.thr u = .acquire cfg (.select todo)) (hport : cfg.p2pPort ≠ 0) (c : ClientId)
    (hc : c ∈ s.sessions.get (sessionKeyFor cfg)) (hno : c ∉ todo) :
    (s.hist.live c).Nonempty ∧ Busy s c := by
  have hl := listing hr
  have hex := lock_exclusive hr
  have hlock : (w.thr u).inLock = true := by rw [hpc]; rfl
  have hmu : w.shared.mu = true := by simpa using hex.not_free hlock
  have hnot : (w.thr t).inLock = false := by
    by_contra h
    exact hu (hex.unique (Bool.of_not_eq_false h) hlock)
  obtain ⟨hsessions, hmanaged, _⟩ := ha.of_locked hmu hnot
  rw [hsessions] at hc
  obtain ⟨hlive, hbusy⟩ := hi.passed u cfg todo hpc hport c hc hno
  rw [ha.live_of_locked hmu hnot]
  refine ⟨hlive, hbusy.imp (ha.retired_mono (hl.created c (hl.made _ c hc))) fun hfull => ?_⟩
  rw [hmanaged]
  exact hfull

theorem in_use (h : system.Reach (fun w l => Rightful w l ∧ FoundOpen w l) w) : InUse w := by
  refine system_invariant (I := InUse) ?_ ?_ h
  · exact ⟨fun key c hc => (nomatch hc), fun key c hc => (nomatch hc),
      fun t serial c n hpc => (nomatch hpc), fun t cfg todo hpc => (nomatch hpc)⟩
  · intro w t ch s pc hr hi hok hn ha
    refine ⟨hi.count_step hr ha, hi.retired_step hr hok.1 hn, hi.release_step hok.1 hn, ?_⟩
    refine forall_update (P := fun _ (p : Pc) => ∀ cfg todo, p = .acquire cfg (.select todo) →
      cfg.p2pPort ≠ 0 → ∀ c ∈ s.sessions.get (sessionKeyFor cfg), c ∉ todo →
        (s.hist.live c).Nonempty ∧ Busy s c) ?_ ?_
    · exact fun cfg todo hpc => hi.passed_own hr hok.2 ha hpc
    · exact fun u hu cfg todo hpc => hi.passed_other hr ha hu hpc

/-! ### The error -/

/-- No handshake ends with the error of a fixed port. -/
theorem handshake_err (h : system.Reach ok w) :
    ∀ inf port, (w.shared.conns inf).err ≠ some (.fixedPortCapacity port) := by
  refine system_invariant (I := fun w => ∀ inf port,
    (w.shared.conns inf).err ≠ some (.fixedPortCapacity port)) ?_ ?_ h
  · intro inf port he
    cases he
  · intro w t ch s pc hr hi _ _ ha inf port
    have hset : ∀ (i : InflightId) (x : InflightConn), x.err ≠ some (.fixedPortCapacity port) →
        (Function.update w.shared.conns i x inf).err ≠ some (.fixedPortCapacity port) := by
      intro i x hx
      by_cases he : inf = i
      · rw [he, Function.update_self]
        exact hx
      · rw [Function.update_of_ne he]
        exact hi inf port
    generalize w.thr t = p at ha
    cases ha with
    | begin | commitFailed | commitClosed | commit => exact hset _ _ fun he => nomatch he
    | finish cfg i r => exact hset i _ (hi i port)
    | _ => exact hi inf port

/-- **Exhaustion only in use.**  In a run in which tunnels are retired by their holders only and the
second loop of `findAvailableSession` finds no tunnel of a pinned port closed, `Acquire` returns
`ErrFixedPortCapacity` only when a caller holds the one tunnel of the configuration, which is
retired or full. -/
theorem capacity_in_use (h : system.Reach (fun w l => Rightful w l ∧ FoundOpen w l) w)
    {w' : World Shared Pc} {cfg : Config} {port : ℤ}
    (hs : system.step w (.thread t ch) = some w')
    (he : w'.thr t = .acquire cfg (.ret (.error (.fixedPortCapacity port)))) :
    port = cfg.p2pPort ∧ ∃ c, w'.shared.sessions.get (sessionKeyFor cfg) = [c] ∧
      (w'.shared.hist.live c).Nonempty ∧
      ((w'.shared.tunnels c).retired = true ∨
        (w'.shared.managed c).maxRealms ≤ (w'.shared.managed c).refCount) := by
  obtain ⟨s, pc, hn, rfl⟩ := interleave_step_thread.mp hs
  have ha := next_cases hn
  have hpassed := (in_use h).passed t
  have hout := (handshakes h).outcome t
  have hload := load_le_one h (sessionKeyFor cfg)
  replace he := (Function.update_self t pc w.thr).symm.trans he
  generalize w.thr t = p at ha hpassed hout
  cases ha with
  | capacity cfg' hport hlist =>
      cases he
      refine ⟨rfl, ?_⟩
      have hlen : (w.shared.sessions.get (sessionKeyFor cfg)).length ≤ 1 :=
        (Nat.le_add_right _ _).trans (hload hport)
      obtain ⟨c, hc⟩ := List.length_eq_one_iff.mp
        (le_antisymm hlen (List.length_pos_iff.mpr hlist))
      exact ⟨c, hc, hpassed cfg [] rfl hport c (by rw [hc]; exact List.mem_cons_self)
        List.not_mem_nil⟩
  | waitedError cfg' inf e _ herr =>
      cases he
      exact absurd herr (handshake_err h inf port)
  | finish cfg' inf r =>
      cases he
      exact absurd (hout inf _ rfl rfl) (handshake_err h inf port)
  | closeAgain _ k | closeQuiet _ k | forget _ k => cases k <;> cases he
  | _ => cases he

instance (w : World Shared Pc) (l : Label Choice Empty) : Decidable (Rightful w l) := by
  rcases l with ⟨t, _ | k⟩ | e
  all_goals try exact .isTrue trivial
  rcases k with _ | ⟨serial, c, _ | n⟩ | _
  all_goals try exact .isTrue trivial
  · exact inferInstanceAs
      (Decidable (n < w.shared.hist.tickets ∧ w.shared.hist.serial n = serial))
  · exact inferInstanceAs (Decidable (w.shared.hist.live _).Nonempty)

instance (w : World Shared Pc) : ∀ l, Decidable (FoundOpen w l)
  | .thread t _ => inferInstanceAs (Decidable (∀ c ∈ (w.thr t).candidate, _))

/-- A caller has the only tunnel of a fixed port, which carries one stream. -/
def takenScript : List (Label Choice Empty) := connectScript 0 fixedPort 0 ++ acts 0 (gos 4)

theorem capacity_in_use_takenScript :
    ∃ w w', system.exec (fun w l => Rightful w l ∧ FoundOpen w l) start
        (takenScript ++ acts 1 ([.call (.acquire fixedPort)] ++ gos 4)) = some w ∧
      system.step w (.thread 1 .go) = some w' ∧
      w'.thr 1 = .acquire fixedPort (.ret (.error (.fixedPortCapacity 5000))) ∧
      ∃ c, w'.shared.sessions.get (sessionKeyFor fixedPort) = [c] ∧
        (w'.shared.hist.live c).Nonempty := by
  have hrun : (system.exec (fun w l => Rightful w l ∧ FoundOpen w l) start
      (takenScript ++ acts 1 ([.call (.acquire fixedPort)] ++ gos 4))).bind (fun w =>
        (system.step w (.thread 1 .go)).map fun w' => w'.thr 1) =
      some (.acquire fixedPort (.ret (.error (.fixedPortCapacity 5000)))) := by
    decide +kernel
  obtain ⟨w, hw, hrun⟩ := Option.bind_eq_some_iff.mp hrun
  obtain ⟨w', hw', he⟩ := Option.map_eq_some_iff.mp hrun
  obtain ⟨_, c, hlist, hheld, _⟩ := capacity_in_use (reach_of_exec hw) hw' he
  exact ⟨w, w', hw, hw', he, c, hlist, hheld⟩

/-- The tunnel is idle; an `Acquire` finds it open in the first loop, and it dies before the
second one. -/
def diesBetweenScript : List (Label Choice Empty) :=
  takenScript ++
    acts 0 [.call (.release "camera" 0 (some 0)), .key (sessionKeyFor fixedPort)] ++
    acts 1 ([.call (.acquire fixedPort)] ++ gos 3) ++ acts 2 [.call (.close 0), .go] ++
    acts 1 (gos 2)

/-- `Acquire` reports a port without capacity, and nobody holds the tunnel. -/
theorem capacity_of_dead :
    (system.exec (fun w l => Paired w l ∧ Rightful w l) start diesBetweenScript).map (fun w =>
      (w.thr 1, w.shared.sessions.get (sessionKeyFor fixedPort), w.shared.hist.live 0)) =
    some (.acquire fixedPort (.ret (.error (.fixedPortCapacity 5000))), [0], ∅) := by
  decide +kernel

end DahuaP2p.Manager
