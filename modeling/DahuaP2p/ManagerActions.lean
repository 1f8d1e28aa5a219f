import DahuaP2p.ManagerStep

/-! # The actions of the session manager as a relation

`Acts s pc s' pc'` lists every action with what it reads.  `next_cases` proves once and for all
that each step of `next` is one of them; the invariants of the following modules are case analyses
on named actions.  `system_invariant` is the rule they use. -/

namespace DahuaP2p.Manager

open Threads

/-- The atomic actions. -/
inductive Acts (s : Shared) : Pc → Shared → Pc → Prop
  | callAcquire (cfg : Config) : Acts s .idle s (.acquire cfg .lock)
  | callRelease (serial : String) (c : ClientId) (n : Option Ticket) :
      Acts s .idle { s with hist := s.hist.giveUp n } (.release serial c n)
  | callCloseAll : Acts s .idle s .closeAll
  | callRetire (c : ClientId) : c < s.clients →
      Acts s .idle (s.setTunnel c { s.tunnels c with retired := true }) .idle
  | callClose (c : ClientId) : c < s.clients → Acts s .idle s (.close c .user)
  | callTimer (n : TimerId) : n ∈ s.timers.armed →
      Acts s .idle { s with timers := s.timers.fire n } (.timer n)
  | callSpawned (c : ClientId) : c ∈ s.spawned →
      Acts s .idle { s with spawned := s.spawned.erase c } (.close c .spawned)
  | managerClosed (cfg : Config) : s.mu = false → s.closed = true →
      Acts s (.acquire cfg .lock) s (.acquire cfg (.ret (.error .sessionManagerClosed)))
  | lock (cfg : Config) : s.mu = false → s.closed = false →
      Acts s (.acquire cfg .lock) { s with mu := true }
        (.acquire cfg (.prune (s.sessions.get (sessionKeyFor cfg)) []))
  | pruned (cfg : Config) (live : List ClientId) :
      Acts s (.acquire cfg (.prune [] live))
        { s with sessions := s.sessions.store (sessionKeyFor cfg) live }
        (.acquire cfg (.select live))
  | pruneClosed (cfg : Config) (c : ClientId) (todo live : List ClientId) :
      (s.tunnels c).closed = true →
      Acts s (.acquire cfg (.prune (c :: todo) live)) (s.stopTimer c)
        (.acquire cfg (.prune todo live))
  | pruneOpen (cfg : Config) (c : ClientId) (todo live : List ClientId) :
      (s.tunnels c).closed = false →
      Acts s (.acquire cfg (.prune (c :: todo) live)) s (.acquire cfg (.prune todo (live ++ [c])))
  | reserve (cfg : Config) (c : ClientId) (todo : List ClientId) :
      (s.tunnels c).isRetired = false → (s.managed c).refCount < (s.managed c).maxRealms →
      Acts s (.acquire cfg (.select (c :: todo))) (s.reserve cfg c)
        (.acquire cfg (.ret (.ok (c, s.hist.tickets))))
  | skip (cfg : Config) (c : ClientId) (todo : List ClientId) :
      (s.tunnels c).isRetired = true ∨ (s.managed c).maxRealms ≤ (s.managed c).refCount →
      Acts s (.acquire cfg (.select (c :: todo))) s (.acquire cfg (.select todo))
  | capacity (cfg : Config) : (sessionKeyFor cfg).p2pPort ≠ 0 →
      s.sessions.get (sessionKeyFor cfg) ≠ [] →
      Acts s (.acquire cfg (.select [])) { s with mu := false }
        (.acquire cfg (.ret (.error (.fixedPortCapacity (sessionKeyFor cfg).p2pPort))))
  | await (cfg : Config) (inf : InflightId) :
      s.inflight.lookup (sessionKeyFor cfg) = some inf →
      Acts s (.acquire cfg (.select [])) { s with mu := false } (.acquire cfg (.wait inf))
  | begin (cfg : Config) :
      ¬((sessionKeyFor cfg).p2pPort ≠ 0 ∧ s.sessions.get (sessionKeyFor cfg) ≠ []) →
      s.inflight.lookup (sessionKeyFor cfg) = none →
      Acts s (.acquire cfg (.select [])) (s.beginHandshake (sessionKeyFor cfg))
        (.acquire cfg (.connect s.connCount))
  | waitedError (cfg : Config) (inf : InflightId) (e : AcquireError) :
      (s.conns inf).done = true → (s.conns inf).err = some e →
      Acts s (.acquire cfg (.wait inf)) s (.acquire cfg (.ret (.error e)))
  | waited (cfg : Config) (inf : InflightId) :
      (s.conns inf).done = true → (s.conns inf).err = none →
      Acts s (.acquire cfg (.wait inf)) s (.acquire cfg .lock)
  | connected (cfg : Config) (inf : InflightId) :
      Acts s (.acquire cfg (.connect inf)) s.connected
        (.acquire cfg (.commit inf (some s.clients)))
  | connectFailed (cfg : Config) (inf : InflightId) :
      Acts s (.acquire cfg (.connect inf)) s (.acquire cfg (.commit inf none))
  | commitFailed (cfg : Config) (inf : InflightId) : s.mu = false →
      Acts s (.acquire cfg (.commit inf none))
        (s.endHandshake (sessionKeyFor cfg) inf (some (.handshake inf)))
        (.acquire cfg (.finish inf (.error (.handshake inf))))
  | commitClosed (cfg : Config) (inf : InflightId) (c : ClientId) : s.mu = false →
      s.closed = true →
      Acts s (.acquire cfg (.commit inf (some c)))
        (s.endHandshake (sessionKeyFor cfg) inf (some .sessionManagerClosed))
        (.close c (.unused cfg inf .sessionManagerClosed))
  | commit (cfg : Config) (inf : InflightId) (c : ClientId) : s.mu = false → s.closed = false →
      Acts s (.acquire cfg (.commit inf (some c))) (s.commit cfg inf c)
        (.acquire cfg (.setOnClose inf c s.hist.tickets))
  | setOnCloseLate (cfg : Config) (inf : InflightId) (c : ClientId) (n : Ticket) :
      (s.tunnels c).closed = true →
      Acts s (.acquire cfg (.setOnClose inf c n)) s (.acquire cfg (.forget inf c n))
  | setOnClose (cfg : Config) (inf : InflightId) (c : ClientId) (n : Ticket) :
      (s.tunnels c).closed = false →
      Acts s (.acquire cfg (.setOnClose inf c n))
        (s.setTunnel c { s.tunnels c with onClose := true })
        (.acquire cfg (.finish inf (.ok (c, n))))
  | forgetLate (cfg : Config) (inf : InflightId) (c : ClientId) (n : Ticket) : s.mu = false →
      Acts s (.acquire cfg (.forget inf c n)) (s.forget c) (.acquire cfg (.finish inf (.ok (c, n))))
  | finish (cfg : Config) (inf : InflightId) (r : Except AcquireError (ClientId × Ticket)) :
      Acts s (.acquire cfg (.finish inf r)) (s.setConn inf { s.conns inf with done := true })
        (.acquire cfg (.ret r))
  | retError (cfg : Config) (e : AcquireError) : Acts s (.acquire cfg (.ret (.error e))) s .idle
  | retOk (cfg : Config) (c : ClientId) (n : Ticket) :
      Acts s (.acquire cfg (.ret (.ok (c, n))))
        { s with hist := { s.hist with held := insert n s.hist.held } } .idle
  | releaseShared (key : SessionKey) (c : ClientId) (n : Option Ticket) : s.mu = false →
      c ∈ s.sessions.get key → 1 < (s.managed c).refCount →
      Acts s (.release key.serial c n) (s.releaseShared c n) .idle
  | releaseRetired (key : SessionKey) (c : ClientId) (n : Option Ticket) : s.mu = false →
      c ∈ s.sessions.get key → (s.managed c).refCount ≤ 1 → (s.tunnels c).isRetired = true →
      Acts s (.release key.serial c n) (s.releaseRetired key c n) .idle
  | releaseIdle (key : SessionKey) (c : ClientId) (n : Option Ticket) : s.mu = false →
      c ∈ s.sessions.get key → (s.managed c).refCount ≤ 1 → (s.tunnels c).isRetired = false →
      Acts s (.release key.serial c n) (s.releaseIdle key c n) .idle
  | releaseUnknown (serial : String) (c : ClientId) (n : Option Ticket) : s.mu = false →
      (∀ key, key.serial = serial → c ∉ s.sessions.get key) →
      Acts s (.release serial c n) { s with hist := s.hist.release c n } .idle
  | timerSkip (n : TimerId) : s.mu = false →
      s.timers.owner n ∉ s.sessions.get (s.timers.key n) ∨
        0 < (s.managed (s.timers.owner n)).refCount →
      Acts s (.timer n) (s.callback n) .idle
  | timerRemove (n : TimerId) : s.mu = false →
      s.timers.owner n ∈ s.sessions.get (s.timers.key n) →
      (s.managed (s.timers.owner n)).refCount ≤ 0 →
      Acts s (.timer n) ((s.callback n).remove (s.timers.key n) (s.timers.owner n))
        (.close (s.timers.owner n) (.timer n))
  | closeAll (ks : List SessionKey) : s.mu = false → ks.Perm s.sessions.keys →
      Acts s .closeAll (s.shutDown (s.clientsOf ks)) (.closing (s.clientsOf ks))
  | closingDone : Acts s (.closing []) s .idle
  | closing (c : ClientId) (rest : List ClientId) :
      Acts s (.closing (c :: rest)) s (.close c (.all rest))
  | closeAgain (c : ClientId) (k : CloseBy) : (s.tunnels c).closed = true →
      Acts s (.close c k) s k.ret
  | closeNotify (c : ClientId) (k : CloseBy) : (s.tunnels c).closed = false →
      (s.tunnels c).onClose = true →
      Acts s (.close c k) (s.setTunnel c { s.tunnels c with closed := true }) (.forget c k)
  | closeQuiet (c : ClientId) (k : CloseBy) : (s.tunnels c).closed = false →
      (s.tunnels c).onClose = false →
      Acts s (.close c k) (s.setTunnel c { s.tunnels c with closed := true }) k.ret
  | forget (c : ClientId) (k : CloseBy) : s.mu = false → Acts s (.forget c k) (s.forget c) k.ret

section inversion
variable {s s' : Shared} {pc' : Pc} {ch : Choice}

theorem startCall_acts {c : Call} (h : startCall s c = some (s', pc')) : Acts s .idle s' pc' := by
  cases c with
  | acquire cfg =>
      cases h
      exact .callAcquire cfg
  | release serial c n =>
      cases h
      exact .callRelease serial c n
  | closeAll =>
      cases h
      exact .callCloseAll
  | retire c =>
      obtain ⟨hc, he⟩ := Option.ite_none_right_eq_some.mp h
      cases he
      exact .callRetire c hc
  | close c =>
      obtain ⟨hc, he⟩ := Option.ite_none_right_eq_some.mp h
      cases he
      exact .callClose c hc
  | timer n =>
      obtain ⟨hn, he⟩ := Option.ite_none_right_eq_some.mp h
      cases he
      exact .callTimer n hn
  | spawned c =>
      obtain ⟨hc, he⟩ := Option.ite_none_right_eq_some.mp h
      cases he
      exact .callSpawned c hc

theorem stepAcquire_acts {cfg : Config} {p : AcquirePc}
    (h : stepAcquire s cfg p ch = some (s', pc')) : Acts s (.acquire cfg p) s' pc' := by
  unfold stepAcquire at h
  dsimp only at h
  split at h <;> (try split at h) <;> (try split at h) <;> (try split at h) <;>
    simp only [reduceCtorEq, Option.some.injEq, Prod.mk.injEq] at h <;> obtain ⟨rfl, rfl⟩ := h
  · exact .managerClosed _ (Bool.of_not_eq_true ‹_›) ‹_›
  · exact .lock _ (Bool.of_not_eq_true ‹_›) (Bool.of_not_eq_true ‹_›)
  · exact .pruned _ _
  · exact .pruneClosed _ _ _ _ ‹_›
  · exact .pruneOpen _ _ _ _ (Bool.of_not_eq_true ‹_›)
  · exact .skip _ _ _ (.inl ‹_›)
  · exact .reserve _ _ _ (Bool.of_not_eq_true ‹_›) ‹_›
  · exact .skip _ _ _ (.inr (not_lt.mp ‹_›))
  · rename_i hk
    exact .capacity _ hk.1 hk.2
  · exact .await _ _ ‹_›
  · exact .begin _ ‹_› ‹_›
  · exact .waitedError _ _ _ ‹_› ‹_›
  · exact .waited _ _ ‹_› ‹_›
  · exact .connected _ _
  · exact .connectFailed _ _
  · exact .commitFailed _ _ (Bool.of_not_eq_true ‹_›)
  · exact .commitClosed _ _ _ (Bool.of_not_eq_true ‹_›) ‹_›
  · exact .commit _ _ _ (Bool.of_not_eq_true ‹_›) (Bool.of_not_eq_true ‹_›)
  · exact .setOnCloseLate _ _ _ _ ‹_›
  · exact .setOnClose _ _ _ _ (Bool.of_not_eq_true ‹_›)
  · exact .forgetLate _ _ _ _ (Bool.of_not_eq_true ‹_›)
  · exact .finish _ _ _
  · exact .retError _ _
  · exact .retOk _ _ _

theorem stepRelease_acts {serial : String} {c : ClientId} {n : Option Ticket}
    (h : stepRelease s serial c n ch = some (s', pc')) : Acts s (.release serial c n) s' pc' := by
  cases ch with
  | key key =>
      obtain ⟨⟨hmu, rfl, hc⟩, he⟩ := Option.ite_none_right_eq_some.mp h
      cases he
      unfold releaseFound
      split
      · exact .releaseShared key c n hmu hc (by omega)
      · split
        · exact .releaseRetired key c n hmu hc (by omega) ‹_›
        · exact .releaseIdle key c n hmu hc (by omega) (Bool.of_not_eq_true ‹_›)
  | go =>
      obtain ⟨⟨hmu, hno⟩, he⟩ := Option.ite_none_right_eq_some.mp h
      cases he
      refine .releaseUnknown serial c n hmu fun key hk hc => ?_
      exact hno key (s.sessions.mem_keys_of_mem_get key hc) hk hc
  | _ => cases h

theorem stepTimer_acts {n : TimerId} (h : stepTimer s n ch = some (s', pc')) :
    Acts s (.timer n) s' pc' := by
  cases ch with
  | go =>
      simp only [stepTimer] at h
      split at h
      · cases h
      · have hmu := Bool.of_not_eq_true ‹_›
        split at h
        · next hc =>
            cases h
            exact .timerRemove n hmu hc.1 (not_lt.mp hc.2)
        · next hc =>
            cases h
            refine .timerSkip n hmu ?_
            rw [not_and_or, not_not] at hc
            exact hc
  | _ => cases h

theorem stepCloseAll_acts (h : stepCloseAll s ch = some (s', pc')) : Acts s .closeAll s' pc' := by
  cases ch with
  | keys ks =>
      obtain ⟨⟨hmu, hks⟩, he⟩ := Option.ite_none_right_eq_some.mp h
      cases he
      exact .closeAll ks hmu hks
  | _ => cases h

theorem stepClose_acts {c : ClientId} {k : CloseBy} (h : stepClose s c k ch = some (s', pc')) :
    Acts s (.close c k) s' pc' := by
  cases ch with
  | go =>
      simp only [stepClose] at h
      split at h
      · cases h
        exact .closeAgain c k ‹_›
      · have hopen := Bool.of_not_eq_true ‹_›
        cases h
        split
        · exact .closeNotify c k hopen ‹_›
        · exact .closeQuiet c k hopen (Bool.of_not_eq_true ‹_›)
  | _ => cases h

/-- Every step of a goroutine is a named action. -/
theorem next_cases {pc : Pc} (h : next s pc ch = some (s', pc')) : Acts s pc s' pc' := by
  unfold next at h
  split at h
  · exact startCall_acts h
  · cases h
  · exact stepAcquire_acts h
  · exact stepRelease_acts h
  · exact stepTimer_acts h
  · exact stepCloseAll_acts h
  · cases h
    exact .closingDone
  · cases h
    exact .closing _ _
  · cases h
  · exact stepClose_acts h
  · split at h
    · cases h
    · cases h
      exact .forget _ _ (Bool.of_not_eq_true ‹_›)
  · cases h

end inversion

/-- **Invariant rule.** -/
theorem system_invariant {ok : World Shared Pc → Label Choice Empty → Prop}
    {I : World Shared Pc → Prop} {w : World Shared Pc} (hstart : I start)
    (hact : ∀ w t ch s pc, system.Reach ok w → I w → ok w (.thread t ch) →
      next w.shared (w.thr t) ch = some (s, pc) → Acts w.shared (w.thr t) s pc →
      I ⟨s, Function.update w.thr t pc⟩)
    (h : system.Reach ok w) : I w := by
  refine interleave_invariant ?_ ?_ ?_ h
  · rintro w rfl
    exact hstart
  · intro w t ch s pc hr hi hok hn
    exact hact w t ch s pc hr hi hok hn (next_cases hn)
  · intro w e
    exact nomatch e

end DahuaP2p.Manager
