import DahuaP2p.ManagerLeaks

/-! # Dead tunnels are forgotten

`Acquire` installs the `onClose` callback of a session after its commit, when other goroutines may
have closed the tunnel already; `SetOnClose` then runs the callback itself.  Either way the
callback runs once, and only for a closed tunnel (`forgotten_once`).

* `forgetSystem`: the manager with a log of how often the callback of each client ran.
* `Pc.hook`: the goroutine that has still to install or to run the callback of a client.  There is
  at most one (`Hooks.unshared`); with none left the callback is installed, or has run. -/

namespace DahuaP2p.Manager

open Threads

variable {s s' : Shared} {pc pc' : Pc} {ok : World Shared Pc → Label Choice Empty → Prop}
  {w : World Shared Pc} {t u : ℕ} {c : ClientId} {runs : ClientId → ℕ}

/-! ### The log -/

/-- The goroutine that is about to run a callback runs it. -/
def forgetNote (runs : ClientId → ℕ) (w : World Shared Pc) : Label Choice Empty → ClientId → ℕ
  | .thread t _ =>
      match (w.thr t).dead with
      | some c => Function.update runs c (runs c + 1)
      | none => runs

/-- The manager with the number of runs of each `onClose` callback. -/
def forgetSystem : System (World Shared Pc × (ClientId → ℕ)) (Label Choice Empty) :=
  system.logged (fun _ => 0) forgetNote

theorem forgetNote_of_dead {ch : Choice} (h : (w.thr t).dead = some c) :
    forgetNote runs w (.thread t ch) c = runs c + 1 := by
  simp [forgetNote, h]

theorem forgetNote_of_ne {ch : Choice} (h : (w.thr t).dead ≠ some c) :
    forgetNote runs w (.thread t ch) c = runs c := by
  simp only [forgetNote]
  cases hd : (w.thr t).dead with
  | none => rfl
  | some d =>
      refine Function.update_of_ne ?_ _ _
      rintro rfl
      exact h hd

/-- **Invariant rule for the manager with its log.** -/
theorem forgetSystem_invariant {I : World Shared Pc → (ClientId → ℕ) → Prop}
    (hstart : I start fun _ => 0)
    (hact : ∀ w runs t ch s pc, system.Reach ok w → I w runs → Acts w.shared (w.thr t) s pc →
      I ⟨s, Function.update w.thr t pc⟩ (forgetNote runs w (.thread t ch)))
    (h : forgetSystem.Reach (fun p => ok p.1) (w, runs)) : I w runs := by
  refine logged_invariant ?_ ?_ ?_ h
  · rintro w rfl
    exact hstart
  · intro w runs t ch s pc hr hi _ hn
    exact hact w runs t ch s pc hr hi (next_cases hn)
  · intro w runs e
    exact nomatch e

/-! ### One action -/

/-- The goroutine has still to install the callback of this client, or to run it. -/
def Pc.hook : Pc → Option ClientId
  | .acquire _ (.setOnClose _ c _) | .acquire _ (.forget _ c _) | .forget c _ => some c
  | _ => none

theorem CloseBy.ret_hook (k : CloseBy) : k.ret.hook = none := by cases k <;> rfl

theorem Pc.hook_of_dead (h : pc.dead = some c) : pc.hook = some c := by
  unfold Pc.dead at h
  split at h
  · exact h
  · exact h
  · cases h

theorem Pc.dead_of_hook (h : pc.hook = some c) : pc.dead = none ∨ pc.dead = some c := by
  unfold Pc.hook at h
  split at h
  · exact .inl rfl
  · exact .inr h
  · exact .inr h
  · cases h

/-- The callback of a client comes to a goroutine by the commit, or when it closes the tunnel. -/
theorem Acts.hook (h : Acts s pc s' pc') (hc : pc'.hook = some c) :
    pc.dead = none ∧ ((pc.hook = some c ∧ pc'.dead = some c) ∨
      (pc.fresh = some c ∧ 0 < s'.hist.acquired c ∧ s'.tunnels = s.tunnels) ∨
      ((s.tunnels c).closed = false ∧ (s.tunnels c).onClose = true ∧ pc'.dead = some c)) := by
  cases h with
  | commit cfg inf d =>
      cases hc
      exact ⟨rfl, .inr (.inl ⟨rfl, by simp [Shared.commit, History.issue], rfl⟩)⟩
  | setOnCloseLate cfg inf d =>
      cases hc
      exact ⟨rfl, .inl ⟨rfl, rfl⟩⟩
  | closeNotify d k hopen hset =>
      cases hc
      exact ⟨rfl, .inr (.inr ⟨hopen, hset, rfl⟩)⟩
  | closeAgain d k | closeQuiet d k | forget d k =>
      rw [k.ret_hook] at hc
      cases hc
  | _ => cases hc

/-- It goes away when it is installed, or has run. -/
theorem Acts.hook_leaves (h : Acts s pc s' pc') (hc : pc.hook = some c)
    (hno : pc'.hook ≠ some c) :
    (pc.dead = none ∧ (s'.tunnels c).closed = false ∧ (s'.tunnels c).onClose = true) ∨
      pc.dead = some c := by
  cases h with
  | setOnCloseLate => exact absurd hc hno
  | setOnClose cfg inf d n hopen =>
      cases hc
      refine .inl ⟨rfl, ?_, ?_⟩
      · simpa [Shared.setTunnel] using hopen
      · simp [Shared.setTunnel]
  | forgetLate | forget => exact .inr hc
  | _ => cases hc

/-- What an action makes of the tunnel of the client `c`. -/
inductive TunnelAct (s : Shared) (pc pc' : Pc) (c : ClientId) : Tunnel → Prop
  | keep : TunnelAct s pc pc' c (s.tunnels c)
  | made : c = s.clients → TunnelAct s pc pc' c {}
  | retire : TunnelAct s pc pc' c { s.tunnels c with retired := true }
  | install : pc.hook = some c → pc.dead = none → (s.tunnels c).closed = false →
      TunnelAct s pc pc' c { s.tunnels c with onClose := true }
  | close : (s.tunnels c).closed = false → ((s.tunnels c).onClose = true → pc'.hook = some c) →
      TunnelAct s pc pc' c { s.tunnels c with closed := true }

theorem Acts.tunnelAct (h : Acts s pc s' pc') (c : ClientId) :
    TunnelAct s pc pc' c (s'.tunnels c) := by
  have hupd : ∀ (d : ClientId) (t : Tunnel), TunnelAct s pc pc' d t →
      TunnelAct s pc pc' c (Function.update s.tunnels d t c) := by
    intro d t ht
    by_cases hd : c = d
    · subst hd
      rwa [Function.update_self]
    · rw [Function.update_of_ne hd]
      exact .keep
  cases h with
  | connected => exact hupd _ _ (.made rfl)
  | callRetire d => exact hupd d _ .retire
  | setOnClose cfg inf d n hopen => exact hupd d _ (.install rfl rfl hopen)
  | closeNotify d k hopen => exact hupd d _ (.close hopen fun _ => rfl)
  | closeQuiet d k hopen hnone =>
      refine hupd d _ (.close hopen fun hset => ?_)
      rw [hnone] at hset
      cases hset
  | _ => exact .keep

/-- Only the goroutine with the hook installs a callback. -/
theorem TunnelAct.onClose_before {tun : Tunnel} (h : TunnelAct s pc pc' c tun)
    (hset : tun.onClose = true) :
    (s.tunnels c).onClose = true ∨ pc.hook = some c ∧ pc.dead = none := by
  cases h with
  | keep | retire | close => exact .inl hset
  | made => cases hset
  | install hhook hdead => exact .inr ⟨hhook, hdead⟩

/-- A tunnel with a callback stays so; who closes it is going to run the callback. -/
theorem TunnelAct.installed {tun : Tunnel} (h : TunnelAct s pc pc' c tun) (hlt : c < s.clients)
    (hopen : (s.tunnels c).closed = false) (hset : (s.tunnels c).onClose = true) :
    tun.onClose = true ∧ (tun.closed = true → pc'.hook = some c) := by
  cases h with
  | keep | retire =>
      refine ⟨hset, fun hclosed => ?_⟩
      rw [hopen] at hclosed
      cases hclosed
  | made hc => exact absurd hc hlt.ne
  | install _ _ hopen =>
      refine ⟨rfl, fun hclosed => ?_⟩
      rw [hopen] at hclosed
      cases hclosed
  | close _ hnotify => exact ⟨hset, fun _ => hnotify hset⟩

/-! ### Hooks -/

/-- Who installs and runs the callbacks, and how often they ran. -/
structure Hooks (w : World Shared Pc) (runs : ClientId → ℕ) : Prop where
  unshared : Unshared Pc.hook w.thr
  pending : ∀ t c, (w.thr t).hook = some c → 0 < w.shared.hist.acquired c ∧ runs c = 0 ∧
    ((w.thr t).dead = none → (w.shared.tunnels c).onClose = false)
  settled : ∀ c, 0 < w.shared.hist.acquired c → (∀ t, (w.thr t).hook ≠ some c) →
    (runs c = 0 ∧ (w.shared.tunnels c).closed = false ∧ (w.shared.tunnels c).onClose = true) ∨
      (runs c = 1 ∧ (w.shared.tunnels c).closed = true)
  unmade : ∀ c, w.shared.hist.acquired c = 0 →
    runs c = 0 ∧ (w.shared.tunnels c).onClose = false
  unlisted : ∀ c key, runs c ≠ 0 → c ∉ w.shared.sessions.get key

section step

/-- While a tunnel is open and its callback installed, no goroutine has the hook. -/
theorem Hooks.no_hook (hh : Hooks w runs)
    (hdead : ∀ t c, (w.thr t).dead = some c → (w.shared.tunnels c).closed = true)
    (hopen : (w.shared.tunnels c).closed = false) (hset : (w.shared.tunnels c).onClose = true) :
    (w.thr u).hook ≠ some c := by
  intro hu
  rcases Pc.dead_of_hook hu with hnone | hsome
  · rw [(hh.pending u c hu).2.2 hnone] at hset
    cases hset
  · rw [hdead u c hsome] at hopen
    cases hopen

/-- The callback of an open tunnel that is installed has not run. -/
theorem Hooks.installed (hh : Hooks w runs)
    (hdead : ∀ t c, (w.thr t).dead = some c → (w.shared.tunnels c).closed = true)
    (hopen : (w.shared.tunnels c).closed = false) (hset : (w.shared.tunnels c).onClose = true) :
    0 < w.shared.hist.acquired c ∧ runs c = 0 := by
  have hmade : 0 < w.shared.hist.acquired c := by
    by_contra hno
    rw [(hh.unmade c (Nat.eq_zero_of_not_pos hno)).2] at hset
    cases hset
  refine ⟨hmade, ?_⟩
  rcases hh.settled c hmade fun t => hh.no_hook hdead hopen hset with h | h
  · exact h.1
  · rw [h.2] at hopen
    cases hopen

theorem Acts.hook_unshared (h : Acts w.shared (w.thr t) s pc) (hl : Listing w)
    (hdead : ∀ t c, (w.thr t).dead = some c → (w.shared.tunnels c).closed = true)
    (hh : Hooks w runs) : Unshared Pc.hook (Function.update w.thr t pc) := by
  refine hh.unshared.update fun c hc => ?_
  obtain ⟨_, ⟨hold, _⟩ | ⟨hfresh, _⟩ | ⟨hopen, hset, _⟩⟩ := h.hook hc
  · exact .inl hold
  · refine .inr fun u _ hu => ?_
    have hmade := (hh.pending u c hu).1
    have hzero := (hl.fresh t c hfresh).2
    omega
  · exact .inr fun u _ => hh.no_hook hdead hopen hset

theorem Acts.hook_pending (h : Acts w.shared (w.thr t) s pc) (hl : Listing w)
    (hdead : ∀ t c, (w.thr t).dead = some c → (w.shared.tunnels c).closed = true)
    (hh : Hooks w runs) (ch : Choice) (hc : pc.hook = some c) :
    0 < s.hist.acquired c ∧ forgetNote runs w (.thread t ch) c = 0 ∧
      (pc.dead = none → (s.tunnels c).onClose = false) := by
  obtain ⟨hnone, hcase⟩ := h.hook hc
  rw [forgetNote_of_ne (by simp [hnone])]
  have hrun : pc.dead = some c → pc.dead = none → (s.tunnels c).onClose = false := by
    intro hsome hno
    rw [hsome] at hno
    cases hno
  rcases hcase with ⟨hold, hd⟩ | ⟨hfresh, hmade, htun⟩ | ⟨hopen, hset, hd⟩
  · obtain ⟨hmade, hzero, _⟩ := hh.pending t c hold
    exact ⟨lt_of_lt_of_le hmade (h.acquired_le c), hzero, hrun hd⟩
  · obtain ⟨hzero, hset⟩ := hh.unmade c (hl.fresh t c hfresh).2
    exact ⟨hmade, hzero, fun _ => htun ▸ hset⟩
  · obtain ⟨hmade, hzero⟩ := hh.installed hdead hopen hset
    exact ⟨lt_of_lt_of_le hmade (h.acquired_le c), hzero, hrun hd⟩

theorem Acts.hook_other (h : Acts w.shared (w.thr t) s pc) (hh : Hooks w runs) (ch : Choice)
    (hu : u ≠ t) (hc : (w.thr u).hook = some c) :
    0 < s.hist.acquired c ∧ forgetNote runs w (.thread t ch) c = 0 ∧
      ((w.thr u).dead = none → (s.tunnels c).onClose = false) := by
  obtain ⟨hmade, hzero, hset⟩ := hh.pending u c hc
  have hne : (w.thr t).hook ≠ some c := fun ht => hu (hh.unshared u t c hc ht)
  refine ⟨lt_of_lt_of_le hmade (h.acquired_le c), ?_, fun hnone => ?_⟩
  · rw [forgetNote_of_ne fun hd => hne (Pc.hook_of_dead hd), hzero]
  · by_contra hset'
    rcases (h.tunnelAct c).onClose_before (by simpa using hset') with hold | ⟨hown, _⟩
    · rw [hset hnone] at hold
      cases hold
    · exact hne hown

theorem Acts.hook_settled (h : Acts w.shared (w.thr t) s pc) (hl : Listing w)
    (hdead : ∀ t c, (w.thr t).dead = some c → (w.shared.tunnels c).closed = true)
    (hh : Hooks w runs) (ch : Choice) (hmade : 0 < s.hist.acquired c)
    (hno : ∀ u, (Function.update w.thr t pc u).hook ≠ some c) :
    (forgetNote runs w (.thread t ch) c = 0 ∧ (s.tunnels c).closed = false ∧
      (s.tunnels c).onClose = true) ∨
    (forgetNote runs w (.thread t ch) c = 1 ∧ (s.tunnels c).closed = true) := by
  have hpc : pc.hook ≠ some c := by simpa using hno t
  have hbefore : 0 < w.shared.hist.acquired c := by
    rcases h.made_before hl hmade with hold | ⟨cfg, inf, _, _, rfl⟩
    · exact hold
    · exact absurd rfl hpc
  have hlt := hl.created c hbefore
  by_cases hown : (w.thr t).hook = some c
  · -- this goroutine installs the callback, or runs it
    have hzero := (hh.pending t c hown).2.1
    rcases h.hook_leaves hown hpc with ⟨hd, hopen, hset⟩ | hd
    · rw [forgetNote_of_ne (by simp [hd])]
      exact .inl ⟨hzero, hopen, hset⟩
    · rw [forgetNote_of_dead hd, hzero]
      exact .inr ⟨rfl, h.closed_mono hlt (hdead t c hd)⟩
  · rw [forgetNote_of_ne fun hd => hown (Pc.hook_of_dead hd)]
    have hnone : ∀ u, (w.thr u).hook ≠ some c := by
      intro u hu
      have hut : u ≠ t := fun e => hown (e ▸ hu)
      exact hno u (by rwa [Function.update_of_ne hut])
    rcases hh.settled c hbefore hnone with ⟨hzero, hopen, hset⟩ | ⟨hone, hclosed⟩
    · obtain ⟨hset', hclose⟩ := (h.tunnelAct c).installed hlt hopen hset
      refine .inl ⟨hzero, ?_, hset'⟩
      by_contra hclosed
      exact hpc (hclose (by simpa using hclosed))
    · exact .inr ⟨hone, h.closed_mono hlt hclosed⟩

theorem Acts.hook_unmade (h : Acts w.shared (w.thr t) s pc) (hh : Hooks w runs) (ch : Choice)
    (hzero : s.hist.acquired c = 0) :
    forgetNote runs w (.thread t ch) c = 0 ∧ (s.tunnels c).onClose = false := by
  have hbefore : w.shared.hist.acquired c = 0 := by
    have hle := h.acquired_le c
    omega
  obtain ⟨hruns, hset⟩ := hh.unmade c hbefore
  have hne : (w.thr t).hook ≠ some c := by
    intro ht
    have hpos := (hh.pending t c ht).1
    omega
  refine ⟨?_, ?_⟩
  · rw [forgetNote_of_ne fun hd => hne (Pc.hook_of_dead hd), hruns]
  · by_contra hset'
    rcases (h.tunnelAct c).onClose_before (by simpa using hset') with hold | ⟨hown, _⟩
    · rw [hset] at hold
      cases hold
    · exact hne hown

/-- `forget` takes its own session off its list and leaves all others. -/
theorem Listing.get_forget (hl : Listing w) (c : ClientId) (key : SessionKey) :
    (w.shared.forget c).sessions.get key = (w.shared.sessions.get key).erase c := by
  have hget : (w.shared.forget c).sessions.get key = if key = (w.shared.managed c).key then
      (w.shared.sessions.get (w.shared.managed c).key).erase c
      else w.shared.sessions.get key := SessionMap.get_store _ _ _ _
  rw [hget]
  split
  · next hkey => rw [hkey]
  · next hkey =>
      rw [List.erase_of_not_mem]
      exact fun hc => hkey (hl.key key c hc).symm

theorem Acts.forgets (h : Acts s pc s' pc') (hc : pc.dead = some c) : s' = s.forget c := by
  cases h with
  | forgetLate | forget =>
      cases hc
      rfl
  | _ => cases hc

theorem Acts.hook_unlisted (h : Acts w.shared (w.thr t) s pc) (hl : Listing w) (hh : Hooks w runs)
    (ch : Choice) (key : SessionKey) (hruns : forgetNote runs w (.thread t ch) c ≠ 0) :
    c ∉ s.sessions.get key := by
  by_cases hd : (w.thr t).dead = some c
  · rw [h.forgets hd, hl.get_forget]
    exact (hl.nodup key).not_mem_erase
  · rw [forgetNote_of_ne hd] at hruns
    have hmade : 0 < w.shared.hist.acquired c := by
      by_contra hno
      exact hruns (hh.unmade c (Nat.eq_zero_of_not_pos hno)).1
    exact fun hc => hh.unlisted c key hruns (h.listed_before hl hmade hc)

end step

theorem hooks (h : forgetSystem.Reach (fun p => ok p.1) (w, runs)) : Hooks w runs := by
  refine forgetSystem_invariant (I := Hooks) ?_ ?_ h
  · refine ⟨?_, ?_, ?_, ?_, ?_⟩
    · intro t u c hc
      cases hc
    · intro t c hc
      cases hc
    · intro c hc
      cases hc
    · exact fun c _ => ⟨rfl, rfl⟩
    · exact fun c key hruns => absurd rfl hruns
  · intro w runs t ch s pc hr hh ha
    have hl := listing hr
    have hdead := dead_closed hr
    refine ⟨ha.hook_unshared hl hdead hh, ?_, fun c => ha.hook_settled hl hdead hh ch,
      fun c => ha.hook_unmade hh ch, fun c => ha.hook_unlisted hl hh ch⟩
    exact forall_update (P := fun _ p => ∀ c, Pc.hook p = some c →
      0 < s.hist.acquired c ∧ forgetNote runs w (.thread t ch) c = 0 ∧
        (p.dead = none → (s.tunnels c).onClose = false))
      (fun c => ha.hook_pending hl hdead hh ch) fun u hu c => ha.hook_other hh ch hu

/-! ### Exactly once -/

/-- The callback of an open tunnel has not run. -/
theorem Hooks.of_open (hh : Hooks w runs) (hmade : 0 < w.shared.hist.acquired c)
    (hopen : (w.shared.tunnels c).closed = false) : runs c = 0 := by
  by_cases hsome : ∃ t, (w.thr t).hook = some c
  · obtain ⟨t, ht⟩ := hsome
    exact (hh.pending t c ht).2.1
  · rcases hh.settled c hmade (not_exists.mp hsome) with ⟨hzero, _⟩ | ⟨_, hc⟩
    · exact hzero
    · rw [hopen] at hc
      cases hc

/-- The callback of a closed tunnel has run once, or one goroutine has still to run it. -/
theorem Hooks.of_closed (hh : Hooks w runs) (hmade : 0 < w.shared.hist.acquired c)
    (hc : (w.shared.tunnels c).closed = true) :
    (runs c = 1 ∧ ∀ t, (w.thr t).hook ≠ some c) ∨
      (runs c = 0 ∧ ∃ t, (w.thr t).hook = some c ∧ ∀ u, (w.thr u).hook = some c → u = t) := by
  by_cases hsome : ∃ t, (w.thr t).hook = some c
  · obtain ⟨t, ht⟩ := hsome
    exact .inr ⟨(hh.pending t c ht).2.1, t, ht, fun u hu => hh.unshared u t c hu ht⟩
  · have hnone := not_exists.mp hsome
    rcases hh.settled c hmade hnone with ⟨_, hopen, _⟩ | ⟨hone, _⟩
    · rw [hopen] at hc
      cases hc
    · exact .inl ⟨hone, hnone⟩

/-- **Dead tunnels are forgotten.** The callback of a session has not run while its tunnel is open.
When it is closed the callback has run once, or one goroutine has still to run it (maybe by its
call of `SetOnClose`), and only then can the session be in a list.  A client that was never a
session has no callback.  `forget` takes nothing but its own session off the lists. -/
theorem forgotten_once (h : forgetSystem.Reachable (w, runs)) :
    (∀ c, 0 < w.shared.hist.acquired c →
      ((w.shared.tunnels c).closed = false → runs c = 0 ∧ ∀ t, (w.thr t).dead ≠ some c) ∧
      ((w.shared.tunnels c).closed = true →
        (runs c = 1 ∧ ∀ t, (w.thr t).hook ≠ some c) ∨
        (runs c = 0 ∧ ∃ t, (w.thr t).hook = some c ∧ ∀ u, (w.thr u).hook = some c → u = t))) ∧
    (∀ c, w.shared.hist.acquired c = 0 → runs c = 0 ∧ ∀ t, (w.thr t).hook ≠ some c) ∧
    (∀ key, ∀ c ∈ w.shared.sessions.get key, (w.shared.tunnels c).closed = true →
      runs c = 0 ∧ ∃ t, (w.thr t).hook = some c) ∧
    ∀ t ch s pc c, next w.shared (w.thr t) ch = some (s, pc) → (w.thr t).dead = some c →
      ∀ key, s.sessions.get key = (w.shared.sessions.get key).erase c := by
  have hreach : system.Reachable w := System.Reach.unlog (p := (w, runs)) h
  have hh : Hooks w runs := @hooks (fun _ _ => True) w runs h
  have hl := listing hreach
  have hdead := dead_closed hreach
  refine ⟨fun c hmade => ⟨fun hopen => ⟨hh.of_open hmade hopen, fun t ht => ?_⟩,
    hh.of_closed hmade⟩, fun c hzero => ⟨(hh.unmade c hzero).1, fun t ht => ?_⟩, ?_, ?_⟩
  · rw [hdead t c ht] at hopen
    cases hopen
  · have hpos := (hh.pending t c ht).1
    omega
  · intro key c hc hclose
    have hzero : runs c = 0 := by
      by_contra hne
      exact hh.unlisted c key hne hc
    rcases hh.of_closed (hl.made key c hc) hclose with ⟨hone, _⟩ | ⟨_, t, ht, _⟩
    · omega
    · exact ⟨hzero, t, ht⟩
  · intro t ch s pc c hn hd key
    rw [(next_cases hn).forgets hd, hl.get_forget]

/-- The tunnel dies between the commit of `Acquire` and its `SetOnClose`. -/
def diesEarlyScript : List (Label Choice Empty) :=
  connectScript 0 singleRealm 0 ++ acts 0 (gos 1) ++ acts 1 [.call (.close 0), .go] ++
    acts 0 (gos 2)

/-- `SetOnClose` has run the callback. -/
theorem forgotten_once_diesEarly :
    ∃ w runs, forgetSystem.exec (fun _ _ => True) (start, fun _ => 0) diesEarlyScript =
        some (w, runs) ∧
      0 < w.shared.hist.acquired 0 ∧ (w.shared.tunnels 0).closed = true ∧ runs 0 = 1 ∧
      ∀ t, (w.thr t).hook ≠ some 0 := by
  have hrun : (forgetSystem.exec (fun _ _ => True) (start, fun _ => 0) diesEarlyScript).map
      (fun p => decide (0 < p.1.shared.hist.acquired 0 ∧ (p.1.shared.tunnels 0).closed = true ∧
        p.2 0 = 1)) = some true := by
    decide +kernel
  obtain ⟨⟨w, runs⟩, hw, he⟩ := Option.map_eq_some_iff.mp hrun
  obtain ⟨hmade, hclosed, hone⟩ := of_decide_eq_true he
  have hinit : forgetSystem.Reachable (start, fun _ => 0) := .init ⟨rfl, rfl⟩
  have hreach : forgetSystem.Reachable (w, runs) := hinit.exec hw
  refine ⟨w, runs, hw, hmade, hclosed, hone, ?_⟩
  rcases ((forgotten_once hreach).1 0 hmade).2 hclosed with ⟨_, hnone⟩ | ⟨hzero, _⟩
  · exact hnone
  · exact absurd (hone.symm.trans hzero) (by decide)

end DahuaP2p.Manager
