import DahuaP2p.ManagerLists

/-! # No tunnel is lost

Every open tunnel that a handshake has made is in a list of `m.sessions`, in the hands of the
`Acquire` that made it, or about to be closed by a goroutine (`no_tunnel_leak`).

* `Kept s pc c`: the memory or this goroutine looks after the client `c`.
* `Acts.kept`: an action hands on every client that stays open.  The places that drop a client
  from a list either close it themselves, start a goroutine that does, or know that it is closed
  (`Knows`, `dead_closed`).
* `closed_empty`: after `CloseAll` the lists are empty and stay so. -/

namespace DahuaP2p.Manager

open Threads

variable {s s' : Shared} {pc pc' : Pc} {ok : World Shared Pc → Label Choice Empty → Prop}
  {w : World Shared Pc} {t : ℕ} {c : ClientId}

/-! ### The clients of a goroutine -/

/-- The clients that `CloseAll` has still to close after this one. -/
def CloseBy.rest : CloseBy → List ClientId
  | .all rest => rest
  | _ => []

/-- The clients that a goroutine is going to close or forget. -/
def Pc.named : Pc → List ClientId
  | .acquire _ (.setOnClose _ c _) | .acquire _ (.forget _ c _) => [c]
  | .closing todo => todo
  | .close c k | .forget c k => c :: k.rest
  | _ => []

theorem CloseBy.ret_named (k : CloseBy) : k.ret.named = k.rest := by cases k <;> rfl

/-- Goroutines only deal with clients that exist. -/
def Known (w : World Shared Pc) : Prop :=
  (∀ t, ∀ c ∈ (w.thr t).named, c < w.shared.clients) ∧ ∀ c ∈ w.shared.spawned, c < w.shared.clients

theorem Acts.named (h : Acts w.shared (w.thr t) s pc) (hl : Listing w) (hk : Known w)
    (hc : c ∈ pc.named) : c < w.shared.clients := by
  have hown := hk.1 t
  have hfresh := hl.fresh t
  generalize w.thr t = p at h hown hfresh
  cases h with
  | callClose d hd =>
      obtain rfl := List.mem_singleton.mp hc
      exact hd
  | callSpawned d hd =>
      obtain rfl := List.mem_singleton.mp hc
      exact hk.2 c hd
  | commitClosed cfg inf d | commit cfg inf d =>
      obtain rfl := List.mem_singleton.mp hc
      exact (hfresh c rfl).1
  | setOnCloseLate cfg inf d => exact hown c hc
  | timerRemove n _ hmem =>
      obtain rfl := List.mem_singleton.mp hc
      exact hl.lt_clients hmem
  | closeAll ks =>
      obtain ⟨key, _, hmem⟩ := List.mem_flatMap.mp hc
      exact hl.lt_clients hmem
  | closing d rest => exact hown c hc
  | closeNotify d k => exact hown c hc
  | closeAgain d k | closeQuiet d k | forget d k =>
      rw [k.ret_named] at hc
      exact hown c (List.mem_cons_of_mem d hc)
  | _ => cases hc

theorem Acts.spawned_lt (h : Acts s pc s' pc') (hs : ∀ c ∈ s.spawned, c < s.clients)
    (hl : ∀ key, ∀ c ∈ s.sessions.get key, c < s.clients) (hc : c ∈ s'.spawned) :
    c < s.clients := by
  cases h with
  | callSpawned d => exact hs c (List.mem_of_mem_erase hc)
  | releaseRetired key d n _ hmem =>
      rcases List.mem_cons.mp hc with rfl | hold
      · exact hl key c hmem
      · exact hs c hold
  | _ => exact hs c hc

theorem known (h : system.Reach ok w) : Known w := by
  refine system_invariant (I := Known) ?_ ?_ h
  · refine ⟨fun t c hc => ?_, fun c hc => ?_⟩
    · cases hc
    · cases hc
  · intro w t ch s pc hr hk _ _ ha
    have hl := listing hr
    have hle := ha.clients
    refine ⟨?_, fun c hc => ?_⟩
    · refine forall_update (P := fun _ p => ∀ c ∈ Pc.named p, c < s.clients) ?_ ?_
      · exact fun c hc => lt_of_lt_of_le (ha.named hl hk hc) hle
      · exact fun u _ c hc => lt_of_lt_of_le (hk.1 u c hc) hle
    · exact lt_of_lt_of_le (ha.spawned_lt hk.2 (fun _ _ => hl.lt_clients) hc) hle

/-- The client whose `onClose` callback the goroutine is about to run. -/
def Pc.dead : Pc → Option ClientId
  | .acquire _ (.forget _ c _) | .forget c _ => some c
  | _ => none

theorem CloseBy.ret_dead (k : CloseBy) : k.ret.dead = none := by cases k <;> rfl

theorem Acts.dead (h : Acts s pc s' pc') (hc : pc'.dead = some c) :
    (s'.tunnels c).closed = true := by
  cases h with
  | setOnCloseLate cfg inf d n hclosed =>
      cases hc
      exact hclosed
  | closeNotify d k =>
      cases hc
      simp [Shared.setTunnel]
  | closeAgain d k | closeQuiet d k | forget d k =>
      rw [k.ret_dead] at hc
      cases hc
  | _ => cases hc

theorem Pc.dead_named (h : pc.dead = some c) : c ∈ pc.named := by
  unfold Pc.dead at h
  split at h
  · cases h
    exact List.mem_cons_self
  · cases h
    exact List.mem_cons_self
  · cases h

/-- A callback only runs for a closed tunnel. -/
theorem dead_closed (h : system.Reach ok w) :
    ∀ t c, (w.thr t).dead = some c → (w.shared.tunnels c).closed = true := by
  refine system_invariant
    (I := fun w => ∀ t c, (w.thr t).dead = some c → (w.shared.tunnels c).closed = true) ?_ ?_ h
  · intro t c hc
    cases hc
  · intro w t ch s pc hr hi _ _ ha
    refine forall_update (P := fun _ p => ∀ c, Pc.dead p = some c → (s.tunnels c).closed = true)
      (fun c => ha.dead) fun u _ c hc => ?_
    exact ha.closed_mono ((known hr).1 u c (Pc.dead_named hc)) (hi u c hc)

/-! ### Who looks after a client -/

/-- The clients that a goroutine has taken from a list and is going to close. -/
def Pc.closes : Pc → List ClientId
  | .closing todo => todo
  | .close c (.all rest) => c :: rest
  | .close c (.timer _) | .close c .spawned => [c]
  | .forget _ k => k.rest
  | _ => []

/-- The memory or this goroutine looks after the client. -/
def Kept (s : Shared) (pc : Pc) (c : ClientId) : Prop :=
  (∃ key, c ∈ s.sessions.get key) ∨ c ∈ s.spawned ∨ pc.fresh = some c ∨ c ∈ pc.closes

theorem CloseBy.ret_closes (k : CloseBy) : k.ret.closes = k.rest := by cases k <;> rfl

theorem Pc.closes_close {d : ClientId} {k : CloseBy} (h : c ∈ (Pc.close d k).closes) :
    c = d ∨ c ∈ k.rest := by
  cases k with
  | all rest => exact List.mem_cons.mp h
  | timer n | spawned => exact .inl (List.mem_singleton.mp h)
  | user | unused => cases h

/-- Removing another client from a list. -/
theorem Kept.remove {key : SessionKey} {d : ClientId} (h : ∃ key, c ∈ s.sessions.get key)
    (hd : c ≠ d)
    (hs : s'.sessions = s.sessions.store key ((s.sessions.get key).erase d)) : Kept s' pc' c := by
  obtain ⟨key', hc⟩ := h
  refine .inl ⟨key', ?_⟩
  rw [hs, SessionMap.get_store]
  split
  · next hkey =>
      rw [hkey] at hc
      exact (List.mem_erase_of_ne hd).mpr hc
  · exact hc

theorem mem_clientsOf {key : SessionKey} {ks : List SessionKey} (hks : ks.Perm s.sessions.keys)
    (hc : c ∈ s.sessions.get key) : c ∈ s.clientsOf ks :=
  List.mem_flatMap.mpr ⟨key, hks.mem_iff.mpr (s.sessions.mem_keys_of_mem_get key hc), hc⟩

/-- A client in a list that is still open afterwards is in a list, or taken care of. -/
theorem Acts.kept_of_listed (h : Acts s pc s' pc') (hk : Knows s pc)
    (hdead : ∀ d, pc.dead = some d → (s.tunnels d).closed = true)
    (hopen : (s.tunnels c).closed = false) (hc : ∃ key, c ∈ s.sessions.get key) :
    Kept s' pc' c := by
  have hne : ∀ d, (s.tunnels d).closed = true → c ≠ d := by
    rintro d hd rfl
    rw [hd] at hopen
    cases hopen
  cases h with
  | pruned cfg live =>
      obtain ⟨key, hc⟩ := hc
      refine .inl ⟨key, ?_⟩
      rw [SessionMap.get_store]
      split
      · next hkey =>
          rw [hkey] at hc
          by_contra hdrop
          exact hne c (hk.2 c hc (by simpa using hdrop)) rfl
      · exact hc
  | commit cfg inf d =>
      obtain ⟨key, hc⟩ := hc
      refine .inl ⟨key, ?_⟩
      simp only [Shared.commit, SessionMap.get_store]
      split
      · next hkey =>
          rw [hkey] at hc
          exact List.mem_append_left _ hc
      · exact hc
  | forgetLate cfg inf d | forget d k => exact Kept.remove hc (hne d (hdead d rfl)) rfl
  | releaseRetired key d =>
      by_cases hd : c = d
      · exact .inr (.inl (hd ▸ List.mem_cons_self))
      · exact Kept.remove hc hd rfl
  | timerRemove n =>
      by_cases hd : c = s.timers.owner n
      · exact .inr (.inr (.inr (hd ▸ List.mem_cons_self)))
      · exact Kept.remove hc hd rfl
  | closeAll ks _ hks =>
      obtain ⟨key, hc⟩ := hc
      exact .inr (.inr (.inr (mem_clientsOf hks hc)))
  | _ => exact .inl hc

theorem Acts.kept_of_spawned (h : Acts s pc s' pc') (hc : c ∈ s.spawned) : Kept s' pc' c := by
  cases h with
  | callSpawned d =>
      by_cases hd : c = d
      · exact .inr (.inr (.inr (hd ▸ List.mem_cons_self)))
      · exact .inr (.inl ((List.mem_erase_of_ne hd).mpr hc))
  | releaseRetired key d => exact .inr (.inl (List.mem_cons_of_mem d hc))
  | _ => exact .inr (.inl hc)

theorem Acts.kept_of_fresh (h : Acts s pc s' pc') (hopen : (s'.tunnels c).closed = false)
    (hc : pc.fresh = some c) : Kept s' pc' c := by
  cases h with
  | commitClosed => exact .inr (.inr (.inl hc))
  | commit cfg inf d =>
      cases hc
      refine .inl ⟨sessionKeyFor cfg, ?_⟩
      simp [Shared.commit]
  | closeAgain d k hclosed =>
      obtain rfl : d = c := by
        cases k <;> cases hc
        rfl
      rw [hclosed] at hopen
      cases hopen
  | closeNotify d k | closeQuiet d k =>
      obtain rfl : d = c := by
        cases k <;> cases hc
        rfl
      simp [Shared.setTunnel] at hopen
  | _ => cases hc

theorem Acts.kept_of_closes (h : Acts s pc s' pc') (hopen : (s'.tunnels c).closed = false)
    (hc : c ∈ pc.closes) : c ∈ pc'.closes := by
  have hrest : ∀ {d k}, (s'.tunnels d).closed = true → c ∈ (Pc.close d k).closes →
      c ∈ k.rest := by
    intro d k hclosed hmem
    rcases Pc.closes_close hmem with rfl | hr
    · rw [hclosed] at hopen
      cases hopen
    · exact hr
  cases h with
  | closing d rest => exact hc
  | closeAgain d k hclosed =>
      rw [k.ret_closes]
      exact hrest hclosed hc
  | closeNotify d k => exact hrest (by simp [Shared.setTunnel]) hc
  | closeQuiet d k =>
      rw [k.ret_closes]
      exact hrest (by simp [Shared.setTunnel]) hc
  | forget d k =>
      rw [k.ret_closes]
      exact hc
  | _ => cases hc

theorem Acts.open_before (h : Acts s pc s' pc') (hlt : c < s.clients)
    (hopen : (s'.tunnels c).closed = false) : (s.tunnels c).closed = false := by
  by_contra hne
  rw [h.closed_mono hlt (by simpa using hne)] at hopen
  cases hopen

/-- An action hands on every client that stays open. -/
theorem Acts.kept (h : Acts s pc s' pc') (hk : Knows s pc)
    (hdead : ∀ d, pc.dead = some d → (s.tunnels d).closed = true) (hlt : c < s.clients)
    (hopen : (s'.tunnels c).closed = false) (hc : Kept s pc c) : Kept s' pc' c := by
  rcases hc with hlist | hspawned | hfresh | hcloses
  · exact h.kept_of_listed hk hdead (h.open_before hlt hopen) hlist
  · exact h.kept_of_spawned hspawned
  · exact h.kept_of_fresh hopen hfresh
  · exact .inr (.inr (.inr (h.kept_of_closes hopen hcloses)))

theorem Acts.new_client (h : Acts s pc s' pc') (hlt : c < s'.clients) (hge : ¬c < s.clients) :
    pc'.fresh = some c := by
  cases h with
  | connected =>
      have hc : c = s.clients := le_antisymm (Nat.lt_succ_iff.mp hlt) (not_lt.mp hge)
      rw [hc]
      rfl
  | _ => exact absurd hlt hge

/-- Every open tunnel is looked after by the memory or a goroutine. -/
theorem kept (h : system.Reach ok w) :
    ∀ c < w.shared.clients, (w.shared.tunnels c).closed = false →
      ∃ t, Kept w.shared (w.thr t) c := by
  refine system_invariant (I := fun w => ∀ c < w.shared.clients,
    (w.shared.tunnels c).closed = false → ∃ t, Kept w.shared (w.thr t) c) ?_ ?_ h
  · intro c hc
    exact absurd hc (Nat.not_lt_zero c)
  · intro w t ch s pc hr hi _ _ ha c hlt hopen
    have hself : Kept s pc c → ∃ u, Kept s (Function.update w.thr t pc u) c :=
      fun h => ⟨t, by rwa [Function.update_self]⟩
    by_cases hold : c < w.shared.clients
    · have hmoved : Kept w.shared (w.thr t) c → Kept s pc c :=
        ha.kept ((listing hr).knows t) (dead_closed hr t) hold hopen
      obtain ⟨u, hu⟩ := hi c hold (ha.open_before hold hopen)
      by_cases hut : u = t
      · exact hself (hmoved (hut ▸ hu))
      · -- another goroutine keeps what it has in hand
        rcases hu with hlist | hspawned | hown
        · exact hself (hmoved (.inl hlist))
        · exact hself (hmoved (.inr (.inl hspawned)))
        · have hother : Kept s (Function.update w.thr t pc u) c := by
            rw [Function.update_of_ne hut]
            exact .inr (.inr hown)
          exact ⟨u, hother⟩
    · exact hself (.inr (.inr (.inl (ha.new_client hlt hold))))

/-! ### After `CloseAll` -/

theorem Acts.closed (h : Acts s pc s' pc') (hc : s'.closed = true) :
    s.closed = true ∨ s.mu = false ∧ s'.mu = false ∧ s'.sessions = ∅ := by
  cases h with
  | closeAll ks hmu => exact .inr ⟨hmu, hmu, rfl⟩
  | _ => exact .inl hc

theorem Acts.closed_stays (h : Acts s pc s' pc') (hc : s.closed = true) : s'.closed = true := by
  cases h with
  | closeAll => rfl
  | _ => exact hc

theorem Acts.mu (h : Acts s pc s' pc') (hmu : s.mu = false) (hc : s.closed = true) :
    s'.mu = false := by
  cases h with
  | lock cfg _ hopen =>
      rw [hc] at hopen
      cases hopen
  | reserve | capacity | await | begin => rfl
  | _ => exact hmu

/-- Once the manager is closed its lists are empty, and no `Acquire` is in its critical section. -/
theorem closed_empty (h : system.Reach ok w) :
    w.shared.closed = true → w.shared.mu = false ∧ w.shared.sessions = ∅ := by
  refine system_invariant
    (I := fun w => w.shared.closed = true → w.shared.mu = false ∧ w.shared.sessions = ∅) ?_ ?_ h
  · intro hc
    cases hc
  · intro w t ch s pc hr hi _ _ ha hc
    rcases ha.closed hc with hbefore | ⟨_, hmu, he⟩
    · obtain ⟨hmu, he⟩ := hi hbefore
      refine ⟨ha.mu hmu hbefore, ?_⟩
      have hout : (w.thr t).inLock = false := by
        by_contra hne
        have hnot := (lock_exclusive hr).not_free (t := t) (by simpa using hne)
        rw [hmu] at hnot
        cases hnot
      have hact := ha.listAct
      generalize w.thr t = p at hact hout
      cases hact with
      | keep e => rw [e, he]
      | prune => cases hout
      | append cfg inf c _ hopen =>
          rw [hbefore] at hopen
          cases hopen
      | remove key c _ e =>
          rw [e, he]
          rfl
      | clear _ e => exact e
    · exact ⟨hmu, he⟩

/-- The `Acquire` of this goroutine is going to return an error. -/
def Pc.fails : Pc → Bool
  | .acquire _ (.finish _ (.error _)) | .acquire _ (.ret (.error _)) => true
  | .close _ (.unused _ _ _) | .forget _ (.unused _ _ _) => true
  | _ => false

theorem CloseBy.ret_fails {k : CloseBy} (h : (Pc.close c k).fails = true) : k.ret.fails = true := by
  cases k with
  | unused => rfl
  | _ => cases h

/-- An `Acquire` that is going to return an error does so: it gets no ticket. -/
theorem Acts.fails (h : Acts s pc s' pc') (hf : pc.fails = true) :
    s'.hist = s.hist ∧ (pc'.fails = true ∨ pc' = .idle) := by
  cases h with
  | finish cfg inf r => exact ⟨rfl, .inl (by cases r <;> exact hf)⟩
  | retError => exact ⟨rfl, .inr rfl⟩
  | closeAgain d k | closeQuiet d k => exact ⟨rfl, .inl (CloseBy.ret_fails hf)⟩
  | closeNotify d k => exact ⟨rfl, .inl (by cases k <;> exact hf)⟩
  | forget d k => exact ⟨rfl, .inl (CloseBy.ret_fails (c := d) (by cases k <;> exact hf))⟩
  | _ => cases hf

/-- An `Acquire` that commits after `CloseAll` is going to return an error. -/
theorem Acts.commit_fails (h : Acts s pc s' pc') (hc : s.closed = true) {cfg : Config}
    {inf : InflightId} {client : Option ClientId} (hpc : pc = .acquire cfg (.commit inf client)) :
    pc'.fails = true := by
  cases h with
  | commitFailed | commitClosed => rfl
  | commit _ _ _ _ hopen =>
      rw [hc] at hopen
      cases hopen
  | _ => cases hpc

/-! ### No leak -/

/-- **No tunnel leak.** Every open tunnel is once in exactly one list, in the hands of the
`Acquire` that made it, or to be closed by the goroutine that took it out of a list or started
for that.  Once `CloseAll` has closed the manager, the lists are and stay empty, an `Acquire` that
commits returns an error, and every tunnel is closed when all goroutines have returned. -/
theorem no_tunnel_leak (h : system.Reachable w) :
    (∀ c < w.shared.clients, (w.shared.tunnels c).closed = false →
      (∃ key, (w.shared.sessions.get key).count c = 1 ∧
        ∀ key', c ∈ w.shared.sessions.get key' → key' = key) ∨
      (∃ t, (w.thr t).fresh = some c) ∨
      c ∈ w.shared.spawned ∨ ∃ t, c ∈ (w.thr t).closes) ∧
    (w.shared.closed = true →
      w.shared.sessions = ∅ ∧
      (∀ t ch s pc, next w.shared (w.thr t) ch = some (s, pc) →
        s.closed = true ∧ s.sessions = ∅ ∧
        (∀ cfg inf client, w.thr t = .acquire cfg (.commit inf client) → pc.fails = true) ∧
        ((w.thr t).fails = true → s.hist = w.shared.hist ∧ (pc.fails = true ∨ pc = .idle))) ∧
      ((∀ t, w.thr t = .idle) → w.shared.spawned = [] →
        ∀ c < w.shared.clients, (w.shared.tunnels c).closed = true)) := by
  have hl := listing h
  have hkept := kept h
  refine ⟨fun c hlt hopen => ?_, fun hclosed => ⟨(closed_empty h hclosed).2, ?_, ?_⟩⟩
  · obtain ⟨t, ⟨key, hc⟩ | hspawned | hfresh | hcloses⟩ := hkept c hlt hopen
    · exact .inl ⟨key, List.count_eq_one_of_mem (hl.nodup key) hc, fun _ => hl.one_list hc⟩
    · exact .inr (.inr (.inl hspawned))
    · exact .inr (.inl ⟨t, hfresh⟩)
    · exact .inr (.inr (.inr ⟨t, hcloses⟩))
  · intro t ch s pc hn
    have ha := next_cases hn
    have hstep : system.Reachable ⟨s, Function.update w.thr t pc⟩ :=
      h.step (interleave_step_thread.mpr ⟨s, pc, hn, rfl⟩)
    have hstays := ha.closed_stays hclosed
    exact ⟨hstays, (closed_empty hstep hstays).2, fun cfg inf client => ha.commit_fails hclosed,
      ha.fails⟩
  · intro hidle hspawned c hlt
    by_contra hopen
    obtain ⟨t, hk⟩ := hkept c hlt (by simpa using hopen)
    rw [Kept, (closed_empty h hclosed).2, hspawned, hidle t] at hk
    simp [Pc.fresh, Pc.closes] at hk

/-- `CloseAll` while one tunnel is in use and the handshake of another one is going on. -/
def closeAllScript : List (Label Choice Empty) :=
  connectScript 0 singleRealm 0 ++ acts 0 (gos 4) ++ connectScript 1 singleRealm 1 ++
    acts 2 ([.call .closeAll, .keys [sessionKeyFor singleRealm]] ++ gos 4) ++ acts 1 (gos 4)

/-- Both tunnels end up closed. -/
theorem no_tunnel_leak_closeAllScript :
    ∃ w, system.exec (fun _ _ => True) start closeAllScript = some w ∧ w.shared.clients = 2 ∧
      ∀ c < w.shared.clients, (w.shared.tunnels c).closed = true := by
  have hrun : (system.exec (fun _ _ => True) start closeAllScript).map (fun w => decide
      (w.shared.clients = 2 ∧ w.shared.closed = true ∧ w.shared.spawned = [] ∧ w.thr 0 = .idle ∧
        w.thr 1 = .idle ∧ w.thr 2 = .idle)) = some true := by
    decide +kernel
  obtain ⟨w, hw, he⟩ := Option.map_eq_some_iff.mp hrun
  obtain ⟨hclients, hclosed, hspawned, h0, h1, h2⟩ := of_decide_eq_true he
  have hidle : ∀ t, w.thr t = .idle
    | 0 => h0
    | 1 => h1
    | 2 => h2
    | t + 3 => exec_thr (n := 3) (by decide +kernel) (by omega) hw
  exact ⟨w, hw, hclients, ((no_tunnel_leak (reach_of_exec hw)).2 hclosed).2.2 hidle hspawned⟩

end DahuaP2p.Manager
