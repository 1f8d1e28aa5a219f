import DahuaP2p.ManagerActions

/-! # The lists of the session manager

What holds of `m.sessions` in every run.

* `lock_exclusive`: `m.mu` is taken exactly while one goroutine is in the critical section of
  `Acquire`.
* `ListAct` names the five ways in which an action changes `m.sessions`.
* `listed`: a client is in at most one list, and at most once in it; what a goroutine between
  `Lock` and `Unlock` knows of its list is true; a client that is not committed is known to one
  goroutine only (`fresh_unshared`). -/

namespace DahuaP2p.Manager

open Threads

variable {s s' : Shared} {pc pc' : Pc}

/-! ### The lock -/

/-- The goroutine is in the critical section of `Acquire`. -/
def Pc.inLock : Pc → Bool
  | .acquire _ (.prune _ _) | .acquire _ (.select _) => true
  | _ => false

theorem CloseBy.ret_inLock (k : CloseBy) : k.ret.inLock = false := by cases k <;> rfl

theorem Acts.lock_move (h : Acts s pc s' pc') : Move (!s.mu) pc.inLock (!s'.mu) pc'.inLock := by
  cases h with
  | lock cfg hmu _ =>
      rw [hmu]
      exact .take rfl
  | reserve | capacity | await | begin => exact .give _
  | closeAgain c k | closeQuiet c k | forget c k =>
      rw [k.ret_inLock]
      exact .keep _ _
  | _ => exact .keep _ _

variable {ok : World Shared Pc → Label Choice Empty → Prop} {w : World Shared Pc}

/-- `m.mu` is taken exactly while one goroutine is in the critical section of `Acquire`. -/
theorem lock_exclusive (h : system.Reach ok w) :
    Exclusive (!w.shared.mu) fun t => (w.thr t).inLock := by
  refine system_invariant (I := fun w => Exclusive (!w.shared.mu) fun t => (w.thr t).inLock) ?_ ?_ h
  · exact Exclusive.of_none fun _ => rfl
  · intro w t ch s pc _ hi _ _ ha
    exact hi.update_thr ha.lock_move

/-! ### Changes of the lists -/

/-- How an action changes `m.sessions`. -/
inductive ListAct (s : Shared) : Pc → Shared → Prop
  | keep {pc : Pc} {s' : Shared} : s'.sessions = s.sessions → ListAct s pc s'
  | prune {s' : Shared} (cfg : Config) (live : List ClientId) :
      s'.sessions = s.sessions.store (sessionKeyFor cfg) live →
      ListAct s (.acquire cfg (.prune [] live)) s'
  | append (cfg : Config) (inf : InflightId) (c : ClientId) : s.mu = false → s.closed = false →
      ListAct s (.acquire cfg (.commit inf (some c))) (s.commit cfg inf c)
  | remove {pc : Pc} {s' : Shared} (key : SessionKey) (c : ClientId) : s.mu = false →
      s'.sessions = s.sessions.store key ((s.sessions.get key).erase c) → ListAct s pc s'
  | clear {s' : Shared} : s.mu = false → s'.sessions = ∅ → s'.closed = true →
      ListAct s .closeAll s'

theorem Acts.listAct (h : Acts s pc s' pc') : ListAct s pc s' := by
  cases h with
  | pruned cfg live => exact .prune cfg live rfl
  | commit cfg inf c hmu hclosed => exact .append cfg inf c hmu hclosed
  | forgetLate cfg inf c n hmu => exact .remove _ c hmu rfl
  | releaseRetired key c n hmu => exact .remove key c hmu rfl
  | timerRemove n hmu => exact .remove _ _ hmu rfl
  | closeAll ks hmu => exact .clear hmu rfl rfl
  | forget c k hmu => exact .remove _ c hmu rfl
  | _ => exact .keep rfl

/-- The actions that count as an acquisition of `c`. -/
inductive Issues (s : Shared) : Pc → Shared → ClientId → String → Prop
  | reserve (cfg : Config) (c : ClientId) (todo : List ClientId) :
      (s.managed c).refCount < (s.managed c).maxRealms →
      Issues s (.acquire cfg (.select (c :: todo))) (s.reserve cfg c) c cfg.serial
  | commit (cfg : Config) (inf : InflightId) (c : ClientId) :
      Issues s (.acquire cfg (.commit inf (some c))) (s.commit cfg inf c) c cfg.serial

theorem Issues.hist {c : ClientId} {serial : String} (h : Issues s pc s' c serial) :
    s'.hist = s.hist.issue c serial := by cases h <;> rfl

theorem History.giveUp_acquired (h : History) (n : Option Ticket) :
    (h.giveUp n).acquired = h.acquired := by cases n <;> rfl

theorem Acts.acquired (h : Acts s pc s' pc') :
    s'.hist.acquired = s.hist.acquired ∨ ∃ c serial, Issues s pc s' c serial := by
  cases h with
  | reserve cfg c todo _ hcap => exact .inr ⟨c, cfg.serial, .reserve cfg c todo hcap⟩
  | commit cfg inf c => exact .inr ⟨c, cfg.serial, .commit cfg inf c⟩
  | callRelease serial c n => exact .inl (s.hist.giveUp_acquired n)
  | _ => exact .inl rfl

theorem Acts.acquired_le (h : Acts s pc s' pc') (c : ClientId) :
    s.hist.acquired c ≤ s'.hist.acquired c := by
  rcases h.acquired with e | ⟨d, serial, hissue⟩
  · rw [e]
  · rw [hissue.hist]
    simp only [History.issue, Function.update_apply]
    split
    · next hc =>
        rw [hc]
        omega
    · exact le_rfl

theorem Acts.clients (h : Acts s pc s' pc') : s.clients ≤ s'.clients := by
  cases h with
  | connected => exact Nat.le_succ _
  | _ => exact le_rfl

/-- A session keeps its key and its capacity, unless it is made now. -/
theorem Acts.frozen (h : Acts s pc s' pc') (c : ClientId) :
    ((s'.managed c).key = (s.managed c).key ∧
      (s'.managed c).maxRealms = (s.managed c).maxRealms) ∨
    ∃ cfg inf, pc = .acquire cfg (.commit inf (some c)) ∧ s' = s.commit cfg inf c := by
  have hupd : ∀ (d : ClientId) (ms : ManagedSession), ms.key = (s.managed d).key →
      ms.maxRealms = (s.managed d).maxRealms →
      (Function.update s.managed d ms c).key = (s.managed c).key ∧
        (Function.update s.managed d ms c).maxRealms = (s.managed c).maxRealms := by
    intro d ms hkey hmax
    by_cases hc : c = d
    · rw [hc, Function.update_self]
      exact ⟨hkey, hmax⟩
    · rw [Function.update_of_ne hc]
      exact ⟨rfl, rfl⟩
  cases h with
  | commit cfg inf d =>
      by_cases hc : c = d
      · exact .inr ⟨cfg, inf, by rw [hc], by rw [hc]⟩
      · refine .inl ?_
        simp only [Shared.commit, Shared.setManaged, Function.update_of_ne hc]
        exact ⟨rfl, rfl⟩
  | reserve cfg d | releaseShared key d | releaseRetired key d | releaseIdle key d =>
      exact .inl (hupd d _ rfl rfl)
  | _ => exact .inl ⟨rfl, rfl⟩

/-- While another goroutine has `m.mu`, the lists and the sessions stay as they are. -/
theorem Acts.of_locked (h : Acts s pc s' pc') (hmu : s.mu = true) (hpc : pc.inLock = false) :
    s'.sessions = s.sessions ∧ s'.managed = s.managed ∧ s'.hist.acquired = s.hist.acquired := by
  have hnot : s.mu ≠ false := by rw [hmu]; decide
  cases h with
  | commit _ _ _ hfree | forgetLate _ _ _ _ hfree | releaseShared _ _ _ hfree
  | releaseRetired _ _ _ hfree | releaseIdle _ _ _ hfree | releaseUnknown _ _ _ hfree
  | timerRemove _ hfree | closeAll _ hfree | forget _ _ hfree => exact absurd hfree hnot
  | pruned | reserve => cases hpc
  | callRelease serial c n => exact ⟨rfl, rfl, s.hist.giveUp_acquired n⟩
  | _ => exact ⟨rfl, rfl, rfl⟩

/-- A closed tunnel stays closed. -/
theorem Acts.closed_mono (h : Acts s pc s' pc') {c : ClientId} (hc : c < s.clients)
    (hclosed : (s.tunnels c).closed = true) : (s'.tunnels c).closed = true := by
  have hupd : ∀ (d : ClientId) (t : Tunnel), (d = c → t.closed = true) →
      (Function.update s.tunnels d t c).closed = true := by
    intro d t ht
    by_cases hd : c = d
    · rw [hd, Function.update_self]
      exact ht hd.symm
    · rw [Function.update_of_ne hd]
      exact hclosed
  cases h with
  | connected => exact hupd s.clients _ fun e => absurd e (Nat.ne_of_gt hc)
  | callRetire d | setOnClose _ _ d => exact hupd d _ fun e => e ▸ hclosed
  | closeNotify d | closeQuiet d => exact hupd d _ fun _ => rfl
  | _ => exact hclosed

/-! ### Clients that are not committed -/

/-- The client of an `Acquire` that is not in a list yet, or never will be. -/
def Pc.fresh : Pc → Option ClientId
  | .acquire _ (.commit _ (some c)) => some c
  | .close c (.unused _ _ _) => some c
  | _ => none

theorem CloseBy.ret_fresh (k : CloseBy) : k.ret.fresh = none := by cases k <;> rfl

theorem Acts.fresh (h : Acts s pc s' pc') {c : ClientId} (hc : pc'.fresh = some c) :
    pc.fresh = some c ∨ c = s.clients ∧ s'.clients = s.clients + 1 := by
  cases h with
  | connected =>
      cases hc
      exact .inr ⟨rfl, rfl⟩
  | commitClosed => exact .inl hc
  | closeAgain d k | closeQuiet d k | forget d k =>
      rw [k.ret_fresh] at hc
      cases hc
  | _ => cases hc

theorem Issues.cases {c : ClientId} {serial : String} (h : Issues s pc s' c serial) :
    (∃ cfg todo, pc = .acquire cfg (.select (c :: todo))) ∨ pc.fresh = some c := by
  cases h with
  | reserve cfg c todo => exact .inl ⟨cfg, todo, rfl⟩
  | commit => exact .inr rfl

/-! ### What a goroutine knows of the list it works on -/

/-- While a goroutine prunes a list, what it has kept and what it has still to look at is in the
list, and what it has dropped is closed; while it selects, the candidates are in the list. -/
def Knows (s : Shared) : Pc → Prop
  | .acquire cfg (.prune todo live) =>
      (live ++ todo).Sublist (s.sessions.get (sessionKeyFor cfg)) ∧
        ∀ c ∈ s.sessions.get (sessionKeyFor cfg), c ∉ live ++ todo → (s.tunnels c).closed = true
  | .acquire cfg (.select todo) => todo ⊆ s.sessions.get (sessionKeyFor cfg)
  | _ => True

theorem knows_of_not_inLock (h : pc.inLock = false) : Knows s pc := by
  unfold Knows
  split
  · cases h
  · cases h
  · trivial

theorem Knows.frame (hk : Knows s pc) (hsessions : s'.sessions = s.sessions)
    (hmono : ∀ key, ∀ c ∈ s.sessions.get key, (s.tunnels c).closed = true →
      (s'.tunnels c).closed = true) : Knows s' pc := by
  unfold Knows at hk ⊢
  rw [hsessions]
  split at hk
  · exact ⟨hk.1, fun c hc hno => hmono _ c hc (hk.2 c hc hno)⟩
  · exact hk
  · trivial

theorem Acts.knows_own (h : Acts s pc s' pc') (hk : Knows s pc) : Knows s' pc' := by
  cases h with
  | lock cfg =>
      refine ⟨List.Sublist.refl _, fun c hc hno => absurd hc ?_⟩
      simpa using hno
  | pruned cfg live =>
      intro c hc
      rwa [SessionMap.get_store_self]
  | pruneClosed cfg d todo live hclosed =>
      refine ⟨?_, fun c hc hno => ?_⟩
      · exact (List.sublist_cons_self d todo).append_left live |>.trans hk.1
      · by_cases hd : c = d
        · rw [hd]
          exact hclosed
        · refine hk.2 c hc ?_
          simp only [List.mem_append, List.mem_cons, not_or] at hno ⊢
          exact ⟨hno.1, hd, hno.2⟩
  | pruneOpen cfg d todo live => simpa [Knows] using hk
  | skip cfg d todo => exact fun c hc => hk (List.mem_cons_of_mem d hc)
  | closeAgain d k | closeQuiet d k | forget d k => exact knows_of_not_inLock k.ret_inLock
  | _ => trivial

/-! ### The lists -/

/-- A client that is in a list was there before or is committed now. -/
theorem ListAct.mem (h : ListAct s pc s') (hk : Knows s pc) {key : SessionKey} {c : ClientId}
    (hc : c ∈ s'.sessions.get key) :
    c ∈ s.sessions.get key ∨ ∃ cfg inf, pc = .acquire cfg (.commit inf (some c)) ∧
      s' = s.commit cfg inf c ∧ key = sessionKeyFor cfg := by
  cases h with
  | keep e =>
      rw [e] at hc
      exact .inl hc
  | prune cfg live e =>
      rw [e, SessionMap.get_store] at hc
      split at hc
      · next hkey =>
          rw [hkey]
          exact .inl (hk.1.subset (by simpa using hc))
      · exact .inl hc
  | append cfg inf d =>
      simp only [Shared.commit, SessionMap.get_store] at hc
      split at hc
      · next hkey =>
          rcases List.mem_append.mp hc with hold | hnew
          · rw [hkey]
            exact .inl hold
          · obtain rfl := List.mem_singleton.mp hnew
            exact .inr ⟨cfg, inf, rfl, rfl, hkey⟩
      · exact .inl hc
  | remove k d hmu e =>
      rw [e, SessionMap.get_store] at hc
      split at hc
      · next hkey =>
          rw [hkey]
          exact .inl (List.mem_of_mem_erase hc)
      · exact .inl hc
  | clear hmu e =>
      rw [e, SessionMap.get_empty] at hc
      cases hc

theorem ListAct.nodup (h : ListAct s pc s') (hk : Knows s pc)
    (hnodup : ∀ key, (s.sessions.get key).Nodup)
    (hfresh : ∀ c key, pc.fresh = some c → c ∉ s.sessions.get key) (key : SessionKey) :
    (s'.sessions.get key).Nodup := by
  cases h with
  | keep e =>
      rw [e]
      exact hnodup key
  | prune cfg live e =>
      rw [e, SessionMap.get_store]
      split
      · have hsub := hk.1
        rw [List.append_nil] at hsub
        exact hsub.nodup (hnodup _)
      · exact hnodup key
  | append cfg inf d =>
      simp only [Shared.commit, SessionMap.get_store]
      split
      · refine (hnodup _).append (List.nodup_singleton d) ?_
        rw [List.disjoint_singleton]
        exact hfresh d _ rfl
      · exact hnodup key
  | remove k d hmu e =>
      rw [e, SessionMap.get_store]
      split
      · exact (hnodup k).erase d
      · exact hnodup key
  | clear hmu e =>
      rw [e]
      exact List.nodup_nil

/-- The state of the lists. -/
structure Listing (w : World Shared Pc) : Prop where
  nodup : ∀ key, (w.shared.sessions.get key).Nodup
  key : ∀ key, ∀ c ∈ w.shared.sessions.get key, (w.shared.managed c).key = key
  made : ∀ key, ∀ c ∈ w.shared.sessions.get key, 0 < w.shared.hist.acquired c
  created : ∀ c, 0 < w.shared.hist.acquired c → c < w.shared.clients
  fresh : ∀ t c, (w.thr t).fresh = some c → c < w.shared.clients ∧ w.shared.hist.acquired c = 0
  unshared : Unshared Pc.fresh w.thr
  knows : ∀ t, Knows w.shared (w.thr t)

namespace Listing

variable {key key' : SessionKey} {c : ClientId} {t : ℕ}

theorem one_list (hl : Listing w) (h : c ∈ w.shared.sessions.get key)
    (h' : c ∈ w.shared.sessions.get key') : key' = key := by
  rw [← hl.key key c h, ← hl.key key' c h']

theorem lt_clients (hl : Listing w) (h : c ∈ w.shared.sessions.get key) : c < w.shared.clients :=
  hl.created c (hl.made key c h)

theorem unlisted_of_fresh (hl : Listing w) (h : (w.thr t).fresh = some c) :
    c ∉ w.shared.sessions.get key := by
  intro hc
  have hmade := hl.made key c hc
  have hzero := (hl.fresh t c h).2
  omega

/-- An acquisition is of a session in the list, or of the client of this very goroutine. -/
theorem issues (hl : Listing w) {serial : String} (h : Issues w.shared (w.thr t) s c serial) :
    0 < w.shared.hist.acquired c ∨ (w.thr t).fresh = some c := by
  rcases h.cases with ⟨cfg, todo, e⟩ | hfresh
  · have hk := hl.knows t
    rw [e] at hk
    exact .inl (hl.made _ c (hk List.mem_cons_self))
  · exact .inr hfresh

end Listing

section step
variable {t : ℕ}

theorem Acts.frozen_of_made (h : Acts w.shared (w.thr t) s pc) (hl : Listing w) {c : ClientId}
    (hc : 0 < w.shared.hist.acquired c) :
    (s.managed c).key = (w.shared.managed c).key ∧
      (s.managed c).maxRealms = (w.shared.managed c).maxRealms := by
  rcases h.frozen c with e | ⟨cfg, inf, hpc, _⟩
  · exact e
  · have hzero := (hl.fresh t c (by rw [hpc]; rfl)).2
    omega

theorem Acts.key (h : Acts w.shared (w.thr t) s pc) (hl : Listing w) (key : SessionKey)
    (c : ClientId) (hc : c ∈ s.sessions.get key) : (s.managed c).key = key := by
  rcases h.listAct.mem (hl.knows t) hc with hold | ⟨cfg, inf, hpc, e, hkey⟩
  · rw [(h.frozen_of_made hl (hl.made key c hold)).1]
    exact hl.key key c hold
  · rw [e, hkey]
    simp [Shared.commit, Shared.setManaged]

theorem Acts.made (h : Acts w.shared (w.thr t) s pc) (hl : Listing w) (key : SessionKey)
    (c : ClientId) (hc : c ∈ s.sessions.get key) : 0 < s.hist.acquired c := by
  rcases h.listAct.mem (hl.knows t) hc with hold | ⟨cfg, inf, hpc, e, hkey⟩
  · have hmade := hl.made key c hold
    have hle := h.acquired_le c
    omega
  · rw [e]
    simp [Shared.commit, History.issue]

theorem Acts.created (h : Acts w.shared (w.thr t) s pc) (hl : Listing w) (c : ClientId)
    (hc : 0 < s.hist.acquired c) : c < s.clients := by
  refine lt_of_lt_of_le ?_ h.clients
  rcases h.acquired with e | ⟨d, serial, hissue⟩
  · rw [e] at hc
    exact hl.created c hc
  · by_cases hd : c = d
    · rw [hd]
      rcases hl.issues hissue with hmade | hfresh
      · exact hl.created d hmade
      · exact (hl.fresh t d hfresh).1
    · rw [hissue.hist] at hc
      simp only [History.issue, Function.update_of_ne hd] at hc
      exact hl.created c hc

/-- A client that another goroutine has in hand is not acquired. -/
theorem Acts.fresh_other (h : Acts w.shared (w.thr t) s pc) (hl : Listing w) {u : ℕ} (hu : u ≠ t)
    {c : ClientId} (hc : (w.thr u).fresh = some c) : c < s.clients ∧ s.hist.acquired c = 0 := by
  obtain ⟨hlt, hzero⟩ := hl.fresh u c hc
  refine ⟨lt_of_lt_of_le hlt h.clients, ?_⟩
  rcases h.acquired with e | ⟨d, serial, hissue⟩
  · rw [e]
    exact hzero
  · have hd : c ≠ d := by
      rintro rfl
      rcases hl.issues hissue with hmade | hfresh
      · omega
      · exact hu (hl.unshared u t c hc hfresh)
    rw [hissue.hist]
    simp only [History.issue, Function.update_of_ne hd]
    exact hzero

theorem Acts.fresh_own (h : Acts w.shared (w.thr t) s pc) (hl : Listing w) {c : ClientId}
    (hc : pc.fresh = some c) : c < s.clients ∧ s.hist.acquired c = 0 := by
  have hsame : s.hist.acquired = w.shared.hist.acquired := by
    generalize w.thr t = p at h
    cases h with
    | commitClosed | connected => rfl
    | closeAgain d k | closeQuiet d k | forget d k => rfl
    | _ => cases hc
  rw [hsame]
  rcases h.fresh hc with hold | ⟨rfl, hcount⟩
  · obtain ⟨hlt, hzero⟩ := hl.fresh t c hold
    exact ⟨lt_of_lt_of_le hlt h.clients, hzero⟩
  · refine ⟨hcount ▸ Nat.lt_succ_self _, ?_⟩
    by_contra hne
    exact lt_irrefl _ (hl.created _ (Nat.pos_of_ne_zero hne))

/-- A session was made before, or is committed now. -/
theorem Acts.made_before (h : Acts w.shared (w.thr t) s pc) (hl : Listing w) {c : ClientId}
    (hmade : 0 < s.hist.acquired c) :
    0 < w.shared.hist.acquired c ∨ ∃ cfg inf,
      w.thr t = .acquire cfg (.commit inf (some c)) ∧ s = w.shared.commit cfg inf c ∧
        pc = .acquire cfg (.setOnClose inf c w.shared.hist.tickets) := by
  have hk := hl.knows t
  generalize w.thr t = p at h hk
  cases h with
  | reserve cfg d todo =>
      refine .inl ?_
      by_cases hd : c = d
      · exact hl.made _ c (hk (hd ▸ List.mem_cons_self))
      · simpa [Shared.reserve, History.issue, hd] using hmade
  | commit cfg inf d =>
      by_cases hd : c = d
      · exact .inr ⟨cfg, inf, by rw [hd], by rw [hd], by rw [hd]⟩
      · refine .inl ?_
        simpa [Shared.commit, History.issue, hd] using hmade
  | callRelease serial d n => exact .inl (by simpa [w.shared.hist.giveUp_acquired n] using hmade)
  | _ => exact .inl hmade

/-- A session that was made and is in a list was there before. -/
theorem Acts.listed_before (h : Acts w.shared (w.thr t) s pc) (hl : Listing w) {c : ClientId}
    (hmade : 0 < w.shared.hist.acquired c) {key : SessionKey} (hc : c ∈ s.sessions.get key) :
    c ∈ w.shared.sessions.get key := by
  rcases h.listAct.mem (hl.knows t) hc with hold | ⟨cfg, inf, hpc, _⟩
  · exact hold
  · have hzero := (hl.fresh t c (by rw [hpc]; rfl)).2
    omega

theorem Acts.fresh_unshared (h : Acts w.shared (w.thr t) s pc) (hl : Listing w) :
    Unshared Pc.fresh (Function.update w.thr t pc) := by
  refine hl.unshared.update fun c hc => ?_
  rcases h.fresh hc with hold | ⟨rfl, _⟩
  · exact .inl hold
  · exact .inr fun u _ hu => lt_irrefl _ (hl.fresh u _ hu).1

theorem Acts.knows_other (h : Acts w.shared (w.thr t) s pc) (hl : Listing w)
    (hx : Exclusive (!w.shared.mu) fun t => (w.thr t).inLock) {u : ℕ} (hu : u ≠ t) :
    Knows s (w.thr u) := by
  by_cases hin : (w.thr u).inLock = true
  · -- the other goroutine has the lock, so this one does not touch the lists
    have hmu : w.shared.mu = true := by simpa using hx.not_free hin
    have hout : (w.thr t).inLock = false := by
      by_contra hne
      exact hu (hx.unique (by simpa using hne) hin)
    refine (hl.knows u).frame (h.of_locked hmu hout).1 fun key c hc hclosed => ?_
    exact h.closed_mono (hl.lt_clients hc) hclosed
  · exact knows_of_not_inLock (by simpa using hin)

end step

/-- The lists are in order in every state reached. -/
theorem listing (h : system.Reach ok w) : Listing w := by
  refine system_invariant (I := Listing) ?_ ?_ h
  · refine ⟨fun _ => List.nodup_nil, ?_, ?_, ?_, ?_, ?_, fun _ => trivial⟩
    · intro key c hc
      cases hc
    · intro key c hc
      cases hc
    · intro c hc
      cases hc
    · intro t c hc
      cases hc
    · intro t u c hc
      cases hc
  · intro w t ch s pc hr hl _ _ ha
    refine ⟨?_, ha.key hl, ha.made hl, ha.created hl, ?_, ha.fresh_unshared hl, ?_⟩
    · exact ha.listAct.nodup (hl.knows t) hl.nodup fun c key hc => hl.unlisted_of_fresh hc
    · exact forall_update
        (P := fun _ p => ∀ c, Pc.fresh p = some c → c < s.clients ∧ s.hist.acquired c = 0)
        (fun c => ha.fresh_own hl) fun u hu c => ha.fresh_other hl hu
    · exact forall_update (P := fun _ p => Knows s p) (ha.knows_own (hl.knows t))
        fun u hu => ha.knows_other hl (lock_exclusive hr) hu

end DahuaP2p.Manager
