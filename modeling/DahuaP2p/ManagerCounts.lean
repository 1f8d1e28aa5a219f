import DahuaP2p.ManagerTickets

/-! # Reference counts

In a paired run the reference count of a listed session is the number of its live tickets
(`accounts`), whatever the order of acquisitions, releases, timers, closings and prunings.  So it is
the number of acquisitions minus the number of releases, it stays within the capacity, at most
`maxRealms` callers hold a tunnel at a time, and an idle timer never closes a tunnel that somebody
holds (`references_balanced`). -/

namespace DahuaP2p.Manager

open Threads

variable {s s' : Shared} {pc pc' : Pc} {w : World Shared Pc} {t : ℕ} {c d : ClientId}

/-! ### The account of a session -/

/-- The numbers that the manager and the history keep of a session. -/
def Shared.account (s : Shared) (c : ClientId) : ℤ × ℕ × ℕ × Finset Ticket :=
  ((s.managed c).refCount, s.hist.acquired c, s.hist.released c, s.hist.live c)

/-- The critical section of a `Release` of `c`. -/
inductive Releases (s : Shared) : Pc → Shared → ClientId → Option Ticket → Prop
  | found {s' : Shared} (key : SessionKey) (c : ClientId) (n : Option Ticket)
      (armedAt : TimerId → ℕ) : c ∈ s.sessions.get key →
      (s'.managed c).refCount = max ((s.managed c).refCount - 1) 0 →
      s'.hist = { s.hist.release c n with armedAt := armedAt } →
      Releases s (.release key.serial c n) s' c n
  | unknown (serial : String) (c : ClientId) (n : Option Ticket) :
      (∀ key, key.serial = serial → c ∉ s.sessions.get key) →
      Releases s (.release serial c n) { s with hist := s.hist.release c n } c n

theorem Shared.account_of_ne (hne : c ≠ d) {ms : ManagedSession} {h : History}
    (hmanaged : s'.managed = Function.update s.managed d ms) (hhist : s'.hist = h)
    (hacquired : h.acquired c = s.hist.acquired c) (hreleased : h.released c = s.hist.released c)
    (hlive : h.live c = s.hist.live c) : s'.account c = s.account c := by
  simp only [Shared.account, hmanaged, hhist, Function.update_of_ne hne, hacquired, hreleased,
    hlive]

theorem History.release_of_ne (h : History) (hne : c ≠ d) (n : Option Ticket) :
    (h.release d n).released c = h.released c ∧ (h.release d n).live c = h.live c := by
  refine ⟨Function.update_of_ne hne _ _, ?_⟩
  cases n with
  | none => rfl
  | some n => exact Function.update_of_ne hne _ _

/-- An action leaves an account as it is, or is an acquisition or a release of it. -/
theorem Acts.account (h : Acts s pc s' pc') (c : ClientId) :
    s'.account c = s.account c ∨ (∃ serial, Issues s pc s' c serial) ∨
      ∃ n, Releases s pc s' c n := by
  cases h with
  | reserve cfg d todo _ hcap =>
      by_cases hc : c = d
      · subst hc
        exact .inr (.inl ⟨_, .reserve cfg c todo hcap⟩)
      · refine .inl (Shared.account_of_ne hc rfl rfl ?_ rfl ?_)
        · exact Function.update_of_ne hc _ _
        · exact Function.update_of_ne hc _ _
  | commit cfg inf d =>
      by_cases hc : c = d
      · subst hc
        exact .inr (.inl ⟨_, .commit cfg inf c⟩)
      · refine .inl (Shared.account_of_ne hc rfl rfl ?_ rfl ?_)
        · exact Function.update_of_ne hc _ _
        · exact Function.update_of_ne hc _ _
  | callRelease serial d n => exact .inl (by cases n <;> rfl)
  | releaseShared key d n _ hmem hcount =>
      by_cases hc : c = d
      · subst hc
        refine .inr (.inr ⟨n, .found key c n _ hmem ?_ rfl⟩)
        simp only [Shared.releaseShared, Shared.setManaged, Function.update_self]
        omega
      · obtain ⟨hr, hlive⟩ := s.hist.release_of_ne hc n
        exact .inl (Shared.account_of_ne hc rfl rfl rfl hr hlive)
  | releaseRetired key d n _ hmem hcount | releaseIdle key d n _ hmem hcount =>
      by_cases hc : c = d
      · subst hc
        refine .inr (.inr ⟨n, .found key c n _ hmem ?_ rfl⟩)
        simp only [Shared.releaseRetired, Shared.releaseIdle, Shared.remove, Shared.setManaged,
          Function.update_self]
        omega
      · obtain ⟨hr, hlive⟩ := s.hist.release_of_ne hc n
        exact .inl (Shared.account_of_ne hc rfl rfl rfl hr hlive)
  | releaseUnknown serial d n _ hno =>
      by_cases hc : c = d
      · subst hc
        exact .inr (.inr ⟨n, .unknown serial c n hno⟩)
      · obtain ⟨hr, hlive⟩ := s.hist.release_of_ne hc n
        refine .inl ?_
        simp only [Shared.account, hr, hlive]
        rfl
  | _ => exact .inl rfl

/-! ### Capacities -/

section capacity
variable {ok : World Shared Pc → Label Choice Empty → Prop}

/-- The capacity of a listed session is the one of its key, which is positive. -/
theorem maxRealms_of_listed (h : system.Reach ok w) : ∀ key, ∀ c ∈ w.shared.sessions.get key,
    (w.shared.managed c).maxRealms = key.maxRealms ∧ 1 ≤ key.maxRealms := by
  refine system_invariant (I := fun w => ∀ key, ∀ c ∈ w.shared.sessions.get key,
    (w.shared.managed c).maxRealms = key.maxRealms ∧ 1 ≤ key.maxRealms) ?_ ?_ h
  · intro key c hc
    cases hc
  · intro w t ch s pc hr hi _ _ ha key c hc
    have hl := listing hr
    rcases ha.listAct.mem (hl.knows t) hc with hold | ⟨cfg, inf, _, rfl, rfl⟩
    · rw [(ha.frozen_of_made hl (hl.made key c hold)).2]
      exact hi key c hold
    · refine ⟨?_, one_le_maxRealms cfg⟩
      simp [Shared.commit, Shared.setManaged]

end capacity

/-! ### Balance -/

/-- The reference count is the number of live tickets. -/
def Balanced (s : Shared) (c : ClientId) : Prop :=
  (s.managed c).refCount = (s.hist.live c).card ∧
    s.hist.acquired c = s.hist.released c + (s.hist.live c).card

theorem Balanced.frame (hb : Balanced s c) (h : s'.account c = s.account c) : Balanced s' c := by
  simp only [Shared.account, Prod.mk.injEq] at h
  obtain ⟨hcount, hacquired, hreleased, hlive⟩ := h
  unfold Balanced
  rw [hcount, hacquired, hreleased, hlive]
  exact hb

theorem Tickets.live_empty (ht : Tickets w) (h : w.shared.hist.acquired c = 0) :
    w.shared.hist.live c = ∅ := by
  refine Finset.eq_empty_of_forall_notMem fun n hn => ?_
  have := (ht.issued c n hn).2.2.2
  omega

theorem Tickets.card_issue (ht : Tickets w) (serial : String) :
    ((w.shared.hist.issue c serial).live c).card = (w.shared.hist.live c).card + 1 :=
  History.card_issue (fun n hn => (ht.issued c n hn).1) serial

theorem Issues.balanced {serial : String} (h : Issues w.shared (w.thr t) s c serial)
    (hl : Listing w) (ht : Tickets w)
    (hb : ∀ key, c ∈ w.shared.sessions.get key → Balanced w.shared c)
    (hr : 0 < w.shared.hist.released c → 0 < w.shared.hist.acquired c) : Balanced s c := by
  have hcard := ht.card_issue (c := c) serial
  have hacquired : (w.shared.hist.issue c serial).acquired c = w.shared.hist.acquired c + 1 := by
    simp [History.issue]
  have hreleased : (w.shared.hist.issue c serial).released c = w.shared.hist.released c := rfl
  have hknows := hl.knows t
  have hfresh := hl.fresh t
  unfold Balanced
  rw [h.hist, hcard, hacquired, hreleased]
  generalize w.thr t = p at h hknows hfresh
  cases h with
  | reserve cfg c todo =>
      obtain ⟨hcount, htotal⟩ := hb _ (hknows List.mem_cons_self)
      simp only [Shared.reserve, Shared.setManaged, Function.update_self]
      omega
  | commit cfg inf c =>
      have hzero := (hfresh c rfl).2
      have hlive := ht.live_empty hzero
      simp only [Shared.commit, Shared.setManaged, Function.update_self, hlive, Finset.card_empty]
      omega

theorem Releases.balanced {n : Option Ticket} (h : Releases w.shared (w.thr t) s c n)
    (hl : Listing w) (ht : Tickets w) {key : SessionKey} (hc : c ∈ w.shared.sessions.get key)
    (hb : Balanced w.shared c) : Balanced s c := by
  have hserial := fun serial (hp : w.thr t = .release serial c n) => ht.release_serial hp
  generalize w.thr t = p at h hserial
  obtain ⟨hcount, htotal⟩ := hb
  cases h with
  | found key' c n armedAt _ hcount' e =>
      obtain ⟨m, rfl, hlive, _⟩ := hserial _ rfl
      have hcard := Finset.card_erase_of_mem hlive
      have hpos := Finset.card_pos.mpr ⟨m, hlive⟩
      unfold Balanced
      rw [hcount', e]
      simp only [History.release, Function.update_self]
      omega
  | unknown serial c n hno =>
      -- the session is listed under a key of that serial
      obtain ⟨m, _, _, hkey⟩ := hserial serial rfl
      rw [hl.key key c hc] at hkey
      exact absurd hc (hno key hkey)

/-! ### The invariant -/

/-- The session is in no list any more and nobody has a ticket for it. -/
def Gone (s : Shared) (c : ClientId) : Prop :=
  0 < s.hist.acquired c ∧ s.hist.live c = ∅ ∧ ∀ key, c ∉ s.sessions.get key

/-- The state of the reference counts. -/
structure Accounts (w : World Shared Pc) : Prop where
  balanced : ∀ key, ∀ c ∈ w.shared.sessions.get key, Balanced w.shared c
  capacity : ∀ c, ((w.shared.hist.live c).card : ℤ) ≤ (w.shared.managed c).maxRealms
  released : ∀ c, 0 < w.shared.hist.released c → 0 < w.shared.hist.acquired c
  idle : ∀ t c n, w.thr t = .close c (.timer n) → Gone w.shared c

section step

theorem Acts.balanced (ha : Acts w.shared (w.thr t) s pc) (hl : Listing w) (ht : Tickets w)
    (hac : Accounts w) (key : SessionKey) (c : ClientId) (hc : c ∈ s.sessions.get key) :
    Balanced s c := by
  have hb := fun key => hac.balanced key c
  rcases ha.account c with e | ⟨serial, hissue⟩ | ⟨n, hrelease⟩
  · rcases ha.listAct.mem (hl.knows t) hc with hold | ⟨cfg, inf, hpc, rfl, _⟩
    · exact (hb key hold).frame e
    · have hissue : Issues w.shared (w.thr t) (w.shared.commit cfg inf c) c cfg.serial :=
        hpc ▸ .commit cfg inf c
      exact hissue.balanced hl ht hb (hac.released c)
  · exact hissue.balanced hl ht hb (hac.released c)
  · rcases ha.listAct.mem (hl.knows t) hc with hold | ⟨cfg, inf, hpc, _⟩
    · exact hrelease.balanced hl ht hold (hb key hold)
    · rw [hpc] at hrelease
      cases hrelease

theorem Acts.capacity_le (ha : Acts w.shared (w.thr t) s pc) (hl : Listing w) (ht : Tickets w)
    (hac : Accounts w) (c : ClientId) :
    ((s.hist.live c).card : ℤ) ≤ (s.managed c).maxRealms := by
  have hcap := hac.capacity c
  rcases ha.ticketAct.live with ⟨d, serial, hissue, _⟩ | ⟨_, _, _, _, hsub⟩
  · by_cases hc : c = d
    · subst hc
      have hcard := ht.card_issue (c := c) serial
      have hknows := hl.knows t
      have hfresh := hl.fresh t
      rw [hissue.hist, hcard]
      generalize w.thr t = p at hissue hknows hfresh
      cases hissue with
      | reserve cfg c todo hroom =>
          obtain ⟨hcount, _⟩ := hac.balanced _ c (hknows List.mem_cons_self)
          simp only [Shared.reserve, Shared.setManaged, Function.update_self]
          push_cast
          omega
      | commit cfg inf c =>
          have hone := one_le_maxRealms cfg
          have hlive := ht.live_empty (hfresh c rfl).2
          simp only [Shared.commit, Shared.setManaged, Function.update_self, hlive,
            Finset.card_empty]
          push_cast
          omega
    · rw [hissue.hist]
      simp only [History.issue, Function.update_of_ne hc]
      rcases ha.frozen c with ⟨_, e⟩ | ⟨cfg, inf, hpc, _⟩
      · rw [e]
        exact hcap
      · -- the client that is committed is the one that is acquired
        rw [hpc] at hissue
        cases hissue
        exact absurd rfl hc
  · have hle : ((s.hist.live c).card : ℤ) ≤ ((w.shared.hist.live c).card : ℤ) :=
      Int.ofNat_le.mpr (Finset.card_le_card (hsub c))
    rcases ha.frozen c with ⟨_, e⟩ | ⟨cfg, inf, hpc, rfl⟩
    · rw [e]
      exact hle.trans hcap
    · have hone := one_le_maxRealms cfg
      have hlive := ht.live_empty (hl.fresh t c (by rw [hpc]; rfl)).2
      rw [hlive, Finset.card_empty] at hle
      simp only [Shared.commit, Shared.setManaged, Function.update_self] at hle ⊢
      omega

theorem Acts.released_made (ha : Acts w.shared (w.thr t) s pc) (ht : Tickets w)
    (hac : Accounts w) (c : ClientId) (hc : 0 < s.hist.released c) : 0 < s.hist.acquired c := by
  refine lt_of_lt_of_le ?_ (ha.acquired_le c)
  rcases ha.account c with e | ⟨serial, hissue⟩ | ⟨n, hrelease⟩
  · simp only [Shared.account, Prod.mk.injEq] at e
    rw [e.2.2.1] at hc
    exact hac.released c hc
  · rw [hissue.hist] at hc
    exact hac.released c hc
  · obtain ⟨serial, hp⟩ : ∃ serial, w.thr t = .release serial c n := by
      generalize w.thr t = p at hrelease
      cases hrelease <;> exact ⟨_, rfl⟩
    obtain ⟨m, _, hlive, _⟩ := ht.release_serial hp
    exact (ht.issued c m hlive).2.2.2

/-- A session that is gone stays so. -/
theorem Acts.gone (ha : Acts w.shared (w.thr t) s pc) (hl : Listing w) (hg : Gone w.shared c) :
    Gone s c := by
  obtain ⟨hmade, hlive, hno⟩ := hg
  refine ⟨lt_of_lt_of_le hmade (ha.acquired_le c), ?_,
    fun key hc => hno key (ha.listed_before hl hmade hc)⟩
  rcases ha.ticketAct.live with ⟨d, serial, hissue, _⟩ | ⟨_, _, _, _, hsub⟩
  · have hd : c ≠ d := by
      rintro rfl
      rcases hissue.cases with ⟨cfg, todo, hpc⟩ | hfresh
      · have hknows := hl.knows t
        rw [hpc] at hknows
        exact hno _ (hknows List.mem_cons_self)
      · have := (hl.fresh t c hfresh).2
        omega
    rw [hissue.hist]
    simp only [History.issue, Function.update_of_ne hd]
    exact hlive
  · exact Finset.subset_empty.mp (hlive ▸ hsub c)

theorem Listing.unlisted_of_remove (hl : Listing w) {key : SessionKey}
    (hc : c ∈ w.shared.sessions.get key)
    (hs : s.sessions = w.shared.sessions.store key ((w.shared.sessions.get key).erase c))
    (key' : SessionKey) : c ∉ s.sessions.get key' := by
  rw [hs, SessionMap.get_store]
  split
  · exact (hl.nodup key).not_mem_erase
  · next hne => exact fun hmem => hne (hl.one_list hc hmem)

theorem CloseBy.ret_ne_close (k k' : CloseBy) : k.ret ≠ .close c k' := by
  cases k with
  | user | timer | spawned | all | unused => exact fun h => nomatch h

/-- The callback of an idle timer closes a session that nobody has. -/
theorem Acts.gone_of_timer (ha : Acts w.shared (w.thr t) s pc) (hl : Listing w) (hac : Accounts w)
    {n : TimerId} (hpc : pc = .close c (.timer n)) : Gone s c := by
  generalize w.thr t = p at ha
  cases ha with
  | timerRemove m _ hmem hcount =>
      cases hpc
      have hlive : w.shared.hist.live (w.shared.timers.owner n) = ∅ := by
        have := (hac.balanced _ _ hmem).1
        exact Finset.card_eq_zero.mp (by omega)
      exact ⟨hl.made _ _ hmem, hlive, hl.unlisted_of_remove hmem rfl⟩
  | closeAgain d k | closeQuiet d k | forget d k => exact absurd hpc (k.ret_ne_close _)
  | _ => cases hpc

end step

/-- The reference counts are right in every state of a paired run. -/
theorem accounts (h : system.Reach Paired w) : Accounts w := by
  refine system_invariant (I := Accounts) ?_ ?_ h
  · refine ⟨fun key c hc => ?_, fun c => le_rfl, fun c hc => hc, fun t c n hpc => ?_⟩
    · cases hc
    · cases hpc
  · intro w t ch s pc hr hac _ _ ha
    have hl := listing hr
    have ht := tickets hr
    refine ⟨ha.balanced hl ht hac, ha.capacity_le hl ht hac, ha.released_made ht hac, ?_⟩
    refine forall_update (P := fun _ p => ∀ c n, p = Pc.close c (.timer n) → Gone s c) ?_ ?_
    · exact fun c n => ha.gone_of_timer hl hac
    · exact fun u _ c n hpc => ha.gone hl (hac.idle u c n hpc)

/-! ### The callers -/

/-- The acquisitions of the session whose callers hold it. -/
def History.holders (h : History) (c : ClientId) : Finset Ticket :=
  h.held.filter fun n => h.owner n = c

theorem Tickets.holders_subset (ht : Tickets w) (c : ClientId) :
    w.shared.hist.holders c ⊆ w.shared.hist.live c := by
  intro n hn
  obtain ⟨hheld, rfl⟩ := Finset.mem_filter.mp hn
  exact ht.held n hheld

/-- **Reference accounting.** In every run in which each `Release` belongs to an `Acquire`, the
reference count of a listed session is the number of its acquisitions minus the number of its
releases, and it is within the capacity.  Hence a tunnel never has more holders than its capacity,
and an idle timer only closes tunnels without holders. -/
theorem references_balanced (h : system.Reach Paired w) :
    (∀ key, ∀ c ∈ w.shared.sessions.get key,
      (w.shared.managed c).refCount = w.shared.hist.acquired c - w.shared.hist.released c ∧
      0 ≤ (w.shared.managed c).refCount ∧
      (w.shared.managed c).refCount ≤ (w.shared.managed c).maxRealms ∧
      1 ≤ (w.shared.managed c).maxRealms) ∧
    (∀ c, ((w.shared.hist.holders c).card : ℤ) ≤ (w.shared.managed c).maxRealms) ∧
    ∀ t c n, w.thr t = .close c (.timer n) → w.shared.hist.holders c = ∅ := by
  have ht := tickets h
  have hac := accounts h
  refine ⟨fun key c hc => ?_, fun c => ?_, fun t c n hpc => ?_⟩
  · obtain ⟨hcount, htotal⟩ := hac.balanced key c hc
    have hcap := hac.capacity c
    obtain ⟨hmax, hone⟩ := maxRealms_of_listed h key c hc
    rw [hmax] at hcap ⊢
    omega
  · have hcard := Finset.card_le_card (ht.holders_subset c)
    have hcap := hac.capacity c
    omega
  · have hlive := (hac.idle t c n hpc).2.1
    have hsub := ht.holders_subset c
    rw [hlive] at hsub
    exact Finset.subset_empty.mp hsub

/-- A camera whose tunnels carry two streams each. -/
def doubleRealm : Config := { singleRealm with maxRealms := 2 }

/-- Two callers share a tunnel and one of them releases it. -/
def sharedScript : List (Label Choice Empty) :=
  connectScript 0 doubleRealm 0 ++ acts 0 (gos 4) ++
    acts 1 ([.call (.acquire doubleRealm)] ++ gos 5) ++
    acts 0 [.call (.release "camera" 0 (some 0)), .key (sessionKeyFor doubleRealm)]

theorem references_balanced_sharedScript :
    (∃ w, system.exec Paired start sharedScript = some w ∧
      w.shared.sessions.get (sessionKeyFor doubleRealm) = [0] ∧
      (w.shared.managed 0).refCount = w.shared.hist.acquired 0 - w.shared.hist.released 0 ∧
      w.shared.hist.acquired 0 = 2 ∧ w.shared.hist.released 0 = 1) ∧
    ∃ w, system.exec Paired start (sharedScript ++
        acts 1 [.call (.release "camera" 0 (some 1)), .key (sessionKeyFor doubleRealm)] ++
        acts 2 [.call (.timer 0), .go]) = some w ∧
      w.thr 2 = .close 0 (.timer 0) ∧ w.shared.hist.holders 0 = ∅ := by
  refine ⟨?_, ?_⟩
  · have hrun : (system.exec Paired start sharedScript).map (fun w => decide
        (w.shared.sessions.get (sessionKeyFor doubleRealm) = [0] ∧
          w.shared.hist.acquired 0 = 2 ∧ w.shared.hist.released 0 = 1)) = some true := by
      decide +kernel
    obtain ⟨w, hw, he⟩ := Option.map_eq_some_iff.mp hrun
    obtain ⟨hlist, hacquired, hreleased⟩ := of_decide_eq_true he
    have hmem : 0 ∈ w.shared.sessions.get (sessionKeyFor doubleRealm) := by
      rw [hlist]
      exact List.mem_cons_self
    exact ⟨w, hw, hlist, ((references_balanced (reach_of_exec hw)).1 _ 0 hmem).1, hacquired,
      hreleased⟩
  · have hrun : (system.exec Paired start (sharedScript ++
        acts 1 [.call (.release "camera" 0 (some 1)), .key (sessionKeyFor doubleRealm)] ++
        acts 2 [.call (.timer 0), .go])).map (fun w => w.thr 2) = some (.close 0 (.timer 0)) := by
      decide +kernel
    obtain ⟨w, hw, he⟩ := Option.map_eq_some_iff.mp hrun
    exact ⟨w, hw, he, (references_balanced (reach_of_exec hw)).2.2 2 0 0 he⟩

end DahuaP2p.Manager
