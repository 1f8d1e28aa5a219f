import DahuaP2p.ManagerHandshakes
import DahuaP2p.ManagerLeaks

/-! # One tunnel per fixed port

A `Config` with a `P2PPort` names one local UDP port, which two tunnels cannot share.  `Acquire`
looks at the list of the key and at `m.inflight` before it opens a tunnel; but the idle timer and
the last `Release` of a retired tunnel take a session off its list first and close it after that,
so a new handshake may begin while the old socket is still open (`two_sockets_idleTimer`).  These
are the only paths on which an open session is off its list: if no handshake begins while a session
of its key waits to be closed (`BeginsAlone`), the sockets of a key with a fixed port exclude each
other (`one_socket`).

* `OpenSocket`: the sockets of a key, those of tunnels and those that a handshake is opening.
* `Acts.openSocket`: a socket is opened by `begin` and handed over by `connected`. -/

namespace DahuaP2p.Manager

open Threads

variable {s s' : Shared} {pc pc' : Pc} {ok : World Shared Pc → Label Choice Empty → Prop}
  {w : World Shared Pc} {t u : ℕ} {key : SessionKey} {c : ClientId}

/-! ### Sockets -/

/-- The client of an `Acquire` that is not in a list, with its key. -/
def Pc.freshKey : Pc → Option (ClientId × SessionKey)
  | .acquire cfg (.commit _ (some c)) | .close c (.unused cfg _ _) => some (c, sessionKeyFor cfg)
  | _ => none

/-- The key of the handshake that is going on. -/
def Pc.opening : Pc → Option SessionKey
  | .acquire cfg (.connect _) => some (sessionKeyFor cfg)
  | _ => none

/-- The socket of a tunnel, or the one that the handshake of a goroutine is opening. -/
inductive Socket where
  | client (c : ClientId)
  | handshake (t : ℕ)
deriving DecidableEq

/-- The tunnel was made for this key. -/
def ClientOf (w : World Shared Pc) (key : SessionKey) (c : ClientId) : Prop :=
  0 < w.shared.hist.acquired c ∧ (w.shared.managed c).key = key ∨
    ∃ t, (w.thr t).freshKey = some (c, key)

/-- The sockets of a key that are open or being opened. -/
def OpenSocket (w : World Shared Pc) (key : SessionKey) : Socket → Prop
  | .client c => c < w.shared.clients ∧ (w.shared.tunnels c).closed = false ∧ ClientOf w key c
  | .handshake t => (w.thr t).opening = some key

theorem CloseBy.ret_freshKey (k : CloseBy) : k.ret.freshKey = none := by cases k <;> rfl

theorem CloseBy.ret_opening (k : CloseBy) : k.ret.opening = none := by cases k <;> rfl

theorem Pc.freshKey_cases (h : pc.freshKey = some (c, key)) :
    (∃ inf, pc.handshake = some (key, inf)) ∨ ∃ cfg inf e, pc = .close c (.unused cfg inf e) := by
  unfold Pc.freshKey at h
  split at h
  · cases h
    exact .inl ⟨_, rfl⟩
  · cases h
    exact .inr ⟨_, _, _, rfl⟩
  · cases h

theorem Pc.fresh_of_freshKey (h : pc.freshKey = some (c, key)) : pc.fresh = some c := by
  unfold Pc.freshKey at h
  split at h
  · cases h
    rfl
  · cases h
    rfl
  · cases h

theorem Pc.handshake_of_opening (h : pc.opening = some key) :
    ∃ inf, pc.handshake = some (key, inf) := by
  unfold Pc.opening at h
  split at h
  · cases h
    exact ⟨_, rfl⟩
  · cases h

/-! ### One action -/

theorem Acts.opening (h : Acts s pc s' pc') (ho : pc'.opening = some key) :
    ∃ cfg, pc = .acquire cfg (.select []) ∧ key = sessionKeyFor cfg ∧
      s.inflight.lookup key = none ∧ ¬(key.p2pPort ≠ 0 ∧ s.sessions.get key ≠ []) := by
  cases h with
  | begin cfg hcap hnone =>
      cases ho
      exact ⟨cfg, rfl, rfl, hnone, hcap⟩
  | closeAgain c k | closeQuiet c k | forget c k =>
      rw [k.ret_opening] at ho
      cases ho
  | _ => cases ho

theorem Acts.freshKey (h : Acts s pc s' pc') (hf : pc'.freshKey = some (c, key)) :
    pc.freshKey = some (c, key) ∨ c = s.clients ∧ pc.opening = some key := by
  cases h with
  | connected =>
      cases hf
      exact .inr ⟨rfl, rfl⟩
  | commitClosed => exact .inl hf
  | closeAgain d k | closeQuiet d k | forget d k =>
      rw [k.ret_freshKey] at hf
      cases hf
  | _ => cases hf

/-- A session is made from the client of this goroutine, under the key of its config. -/
theorem Acts.clientOf (h : Acts w.shared (w.thr t) s pc) (hl : Listing w)
    (hmade : 0 < s.hist.acquired c) (hkey : (s.managed c).key = key) : ClientOf w key c := by
  rcases h.made_before hl hmade with hold | ⟨cfg, inf, hpc, rfl, _⟩
  · exact .inl ⟨hold, (h.frozen_of_made hl hold).1 ▸ hkey⟩
  · right
    refine ⟨t, ?_⟩
    rw [hpc, ← hkey]
    simp [Shared.commit, Shared.setManaged, Pc.freshKey]

/-- A socket was there before, begins to be opened, or takes the place of the handshake that
opened it. -/
theorem Acts.openSocket (h : Acts w.shared (w.thr t) s pc) (hl : Listing w) {x : Socket}
    (hx : OpenSocket ⟨s, Function.update w.thr t pc⟩ key x) :
    OpenSocket w key x ∨ (x = .handshake t ∧ pc.opening = some key) ∨
      (x = .client w.shared.clients ∧ (w.thr t).opening = some key) := by
  cases x with
  | handshake u =>
      by_cases hu : u = t
      · subst hu
        exact .inr (.inl ⟨rfl, by simpa [OpenSocket] using hx⟩)
      · left
        simpa [OpenSocket, Function.update_of_ne hu] using hx
  | client c =>
      obtain ⟨hlt, hopen, hof⟩ := hx
      have hbefore : ClientOf w key c ∨ c = w.shared.clients ∧ (w.thr t).opening = some key := by
        rcases hof with ⟨hmade, hkey⟩ | ⟨u, hu⟩
        · exact .inl (h.clientOf hl hmade hkey)
        · by_cases hut : u = t
          · have hpc : pc.freshKey = some (c, key) := by simpa [hut] using hu
            exact (h.freshKey hpc).imp_left fun hold => .inr ⟨t, hold⟩
          · exact .inl (.inr ⟨u, by simpa [Function.update_of_ne hut] using hu⟩)
      rcases hbefore with hof | ⟨hc, ho⟩
      · have hold : c < w.shared.clients := by
          rcases hof with ⟨hmade, _⟩ | ⟨u, hu⟩
          · exact hl.created c hmade
          · exact (hl.fresh u c (Pc.fresh_of_freshKey hu)).1
        exact .inl ⟨hold, h.open_before hold hopen, hof⟩
      · exact .inr (.inr ⟨by rw [hc], ho⟩)

/-- A client that is closed unused belongs to a closed manager. -/
theorem unused_closed (h : system.Reach ok w) : ∀ t c cfg inf e,
    w.thr t = .close c (.unused cfg inf e) → w.shared.closed = true := by
  refine system_invariant (I := fun w => ∀ t c cfg inf e,
    w.thr t = .close c (.unused cfg inf e) → w.shared.closed = true) ?_ ?_ h
  · intro t c cfg inf e hpc
    cases hpc
  · intro w t ch s pc _ hi _ _ ha
    refine forall_update (P := fun _ p => ∀ c cfg inf e, p = Pc.close c (.unused cfg inf e) →
      s.closed = true) ?_ fun u _ c cfg inf e hpc => ha.closed_stays (hi u c cfg inf e hpc)
    intro c cfg inf e hpc
    generalize w.thr t = p at ha
    cases ha with
    | commitClosed _ _ _ _ hclosed => exact hclosed
    | closeAgain d k | closeQuiet d k | forget d k => exact absurd hpc (k.ret_ne_close _)
    | _ => cases hpc

/-! ### The window -/

/-- The key for which an `Acquire` is about to begin a handshake on a fixed port. -/
def Pc.begins (s : Shared) : Pc → Option SessionKey
  | .acquire cfg (.select []) =>
      let key := sessionKeyFor cfg
      if key.p2pPort ≠ 0 ∧ s.sessions.get key = [] ∧ s.inflight.lookup key = none then some key
      else none
  | _ => none

/-- The goroutine has no session of the key to close. -/
def Pc.ClosesNone (s : Shared) (key : SessionKey) (pc : Pc) : Prop :=
  ∀ c ∈ pc.closes, (s.managed c).key ≠ key

/-- No handshake on a fixed port begins while a session of the key waits to be closed: by a
goroutine that has been spawned for it, by the idle timer, or by `Manager.Close`. -/
def BeginsAlone (w : World Shared Pc) : Label Choice Empty → Prop
  | .thread t _ => ∀ key ∈ (w.thr t).begins w.shared,
      (∀ c ∈ w.shared.spawned, (w.shared.managed c).key ≠ key) ∧
        ∀ u, (w.thr u).ClosesNone w.shared key

/-- When a handshake begins alone, no socket of its key is open. -/
theorem no_socket_before (h : system.Reach ok w) {ch : Choice}
    (hok : BeginsAlone w (.thread t ch)) (ha : Acts w.shared (w.thr t) s pc)
    (hopen : pc.opening = some key) (hport : key.p2pPort ≠ 0) (x : Socket) :
    ¬OpenSocket w key x := by
  obtain ⟨cfg, hpc, hkey, hnone, hcap⟩ := ha.opening hopen
  have hnil : w.shared.sessions.get key = [] := by
    by_contra hne
    exact hcap ⟨hport, hne⟩
  have hidle : ∀ u inf, (w.thr u).handshake ≠ some (key, inf) := by
    intro u inf hu
    rw [(handshakes h).recorded u key inf hu] at hnone
    cases hnone
  cases x with
  | handshake u =>
      intro hu
      obtain ⟨inf, hin⟩ := Pc.handshake_of_opening hu
      exact hidle u inf hin
  | client c =>
      rintro ⟨hlt, hc, ⟨hmade, hck⟩ | ⟨u, hu⟩⟩
      · -- an open tunnel is listed or somebody has it in hand, and each of these is excluded
        have hbegins : key ∈ (w.thr t).begins w.shared := by
          rw [hpc]
          simp only [Pc.begins]
          rw [if_pos (hkey ▸ ⟨hport, hnil, hnone⟩), hkey]
          rfl
        obtain ⟨hspawned, hcloses⟩ := hok key hbegins
        obtain ⟨u, ⟨k, hlist⟩ | hspawn | hfresh | hclosing⟩ := kept h c hlt hc
        · have hk : k = key := ((listing h).key k c hlist).symm.trans hck
          rw [hk, hnil] at hlist
          cases hlist
        · exact hspawned c hspawn hck
        · exact absurd ((listing h).fresh u c hfresh).2 hmade.ne'
        · exact hcloses u c hclosing hck
      · rcases Pc.freshKey_cases hu with ⟨inf, hin⟩ | ⟨cfg', inf, e, hclose⟩
        · exact hidle u inf hin
        · -- the manager is closed, but this goroutine is in the critical section of `Acquire`
          have hmu := (closed_empty h (unused_closed h u c cfg' inf e hclose)).1
          have hlock := (lock_exclusive h).not_free (t := t) (by rw [hpc]; rfl)
          rw [hmu] at hlock
          cases hlock

/-! ### Fixed ports -/

/-- **One open tunnel per fixed port.** In a run in which every handshake on a fixed port begins
alone, at most one tunnel of a key with a fixed port is open or being opened at a time. -/
theorem one_socket (h : system.Reach BeginsAlone w) :
    ∀ key, key.p2pPort ≠ 0 → ∀ x y, OpenSocket w key x → OpenSocket w key y → x = y := by
  refine system_invariant (I := fun w => ∀ key, key.p2pPort ≠ 0 →
    ∀ x y, OpenSocket w key x → OpenSocket w key y → x = y) ?_ ?_ h
  · intro key _ x y hx
    cases x with
    | client c => exact absurd hx.1 (Nat.not_lt_zero c)
    | handshake t => cases hx
  · intro w t ch s pc hr hi hok _ ha key hport x y hx hy
    have hl := listing hr
    by_cases hbegin : pc.opening = some key
    · -- the handshake that begins is the only socket
      have honly : ∀ z, OpenSocket ⟨s, Function.update w.thr t pc⟩ key z → z = .handshake t := by
        intro z hz
        have hnone := no_socket_before hr hok ha hbegin hport
        rcases ha.openSocket hl hz with hold | ⟨hz, _⟩ | ⟨_, ho⟩
        · exact absurd hold (hnone z)
        · exact hz
        · exact absurd ho (hnone (.handshake t))
      rw [honly x hx, honly y hy]
    · -- the other sockets come from different sockets before
      have hfrom : ∀ z, OpenSocket ⟨s, Function.update w.thr t pc⟩ key z →
          z ≠ .handshake t ∧ (OpenSocket w key z ∨
            z = .client w.shared.clients ∧ OpenSocket w key (.handshake t)) := by
        intro z hz
        refine ⟨?_, ?_⟩
        · rintro rfl
          exact hbegin (by simpa [OpenSocket] using hz)
        · rcases ha.openSocket hl hz with hold | ⟨_, ho⟩ | hnew
          · exact .inl hold
          · exact absurd ho hbegin
          · exact .inr hnew
      obtain ⟨hxt, hx | ⟨hx, hxo⟩⟩ := hfrom x hx
      · obtain ⟨hyt, hy | ⟨hy, hyo⟩⟩ := hfrom y hy
        · exact hi key hport x y hx hy
        · exact absurd (hi key hport x _ hx hyo) hxt
      · obtain ⟨hyt, hy | ⟨hy, hyo⟩⟩ := hfrom y hy
        · exact absurd (hi key hport y _ hy hxo) hyt
        · rw [hx, hy]

/-- A tunnel on a fixed port is released, and its idle timer takes it off the list. -/
def idleTimerScript : List (Label Choice Empty) :=
  connectScript 0 fixedPort 0 ++ acts 0 (gos 4) ++
    acts 0 [.call (.release "camera" 0 (some 0)), .key (sessionKeyFor fixedPort)] ++
    acts 1 [.call (.timer 0), .go]

/-- The condition in a run of the goroutines below `n`. -/
def BeginsAmong (n : ℕ) (w : World Shared Pc) (l : Label Choice Empty) : Prop :=
  l.below n = true ∧ match l with
    | .thread t _ => ∀ key ∈ (w.thr t).begins w.shared,
        (∀ c ∈ w.shared.spawned, (w.shared.managed c).key ≠ key) ∧
          ∀ u < n, (w.thr u).ClosesNone w.shared key

instance (s : Shared) (key : SessionKey) (pc : Pc) : Decidable (pc.ClosesNone s key) :=
  inferInstanceAs (Decidable (∀ c ∈ pc.closes, (s.managed c).key ≠ key))

instance (n : ℕ) (w : World Shared Pc) : ∀ l, Decidable (BeginsAmong n w l)
  | .thread t _ => inferInstanceAs (Decidable (_ ∧ ∀ key ∈ (w.thr t).begins w.shared, _ ∧ _))

/-- The goroutines from `n` on have nothing to close. -/
theorem beginsAlone_of_among {n : ℕ} (h : system.Reach (BeginsAmong n) w) :
    system.Reach BeginsAlone w := by
  refine h.mono fun w l _ hr hl _ => ?_
  obtain ⟨t, ch⟩ | e := l
  · intro key hkey
    obtain ⟨hspawned, hbelow⟩ := hl.2 key hkey
    refine ⟨hspawned, fun u => ?_⟩
    by_cases hu : u < n
    · exact hbelow u hu
    · obtain ⟨w₀, rfl, hidle⟩ := reach_thr (fun _ _ hl => hl.1) (Nat.le_of_not_lt hu) hr
      intro c hc
      rw [hidle] at hc
      cases hc
  · cases e

/-- The timer closes the tunnel before the next `Acquire` begins its handshake. -/
theorem one_socket_closedFirst :
    ∃ w, system.exec (BeginsAmong 3) start (idleTimerScript ++ acts 1 (gos 2) ++
        acts 2 ([.call (.acquire fixedPort)] ++ gos 3)) = some w ∧
      system.Reach BeginsAlone w ∧ (sessionKeyFor fixedPort).p2pPort ≠ 0 ∧
      ∀ x, OpenSocket w (sessionKeyFor fixedPort) x ↔ x = .handshake 2 := by
  have hrun : (system.exec (BeginsAmong 3) start (idleTimerScript ++ acts 1 (gos 2) ++
      acts 2 ([.call (.acquire fixedPort)] ++ gos 3))).map (fun w =>
        decide ((w.thr 2).opening = some (sessionKeyFor fixedPort))) = some true := by
    decide +kernel
  obtain ⟨w, hw, he⟩ := Option.map_eq_some_iff.mp hrun
  have hhand : (w.thr 2).opening = some (sessionKeyFor fixedPort) := of_decide_eq_true he
  have hopen : OpenSocket w (sessionKeyFor fixedPort) (.handshake 2) := hhand
  have hport : (sessionKeyFor fixedPort).p2pPort ≠ 0 := by decide
  have hr : system.Reach BeginsAlone w := beginsAlone_of_among (reach_of_exec hw)
  refine ⟨w, hw, hr, hport, fun x => ⟨fun hx => ?_, fun hx => hx ▸ hopen⟩⟩
  exact one_socket hr _ hport x _ hx hopen

/-- The next `Acquire` begins its handshake while the timer has still to close the tunnel. -/
theorem two_sockets_idleTimer :
    ∃ w, system.exec (fun _ _ => True) start (idleTimerScript ++
        acts 2 ([.call (.acquire fixedPort)] ++ gos 3)) = some w ∧
      (sessionKeyFor fixedPort).p2pPort ≠ 0 ∧ w.thr 1 = .close 0 (.timer 0) ∧
      OpenSocket w (sessionKeyFor fixedPort) (.client 0) ∧
      OpenSocket w (sessionKeyFor fixedPort) (.handshake 2) := by
  have hrun : (system.exec (fun _ _ => True) start (idleTimerScript ++
      acts 2 ([.call (.acquire fixedPort)] ++ gos 3))).map (fun w => decide
        (w.thr 1 = .close 0 (.timer 0) ∧ (0 < w.shared.clients ∧
          (w.shared.tunnels 0).closed = false ∧ 0 < w.shared.hist.acquired 0 ∧
          (w.shared.managed 0).key = sessionKeyFor fixedPort) ∧
          (w.thr 2).opening = some (sessionKeyFor fixedPort))) = some true := by
    decide +kernel
  obtain ⟨w, hw, he⟩ := Option.map_eq_some_iff.mp hrun
  obtain ⟨hclosing, ⟨hlt, hopen, hmade, hkey⟩, hhand⟩ := of_decide_eq_true he
  exact ⟨w, hw, by decide, hclosing, ⟨hlt, hopen, .inl ⟨hmade, hkey⟩⟩, hhand⟩

end DahuaP2p.Manager
